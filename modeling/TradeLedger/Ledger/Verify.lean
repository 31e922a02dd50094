/-
Verification by a ledger. A chain that does not verify locks the ledger and raises an alert.
-/
import TradeLedger.Ledger

namespace TradeLedger.Work

variable {σ : Type} [Store σ]

/-- Verifies the chain of a table. -/
def verifyChain (t : Table) : Work σ Chain.Verification := do
  let rows ← ask (Store.scan t)
  let v := Chain.verify t rows
  match v with
  | .intact t tail => note (.chainIntact t tail)
  | .broken b =>
    modify fun w => { w.count (·.chainBreak t) with ledger.locked := true }
    note (.chainBroken b)
    modify (·.raise (.chainIntegrity t b.position b.expected b.actual))
  return v

/-- Verifies every chain, up to the first that cannot be read. -/
def verifyAll : Work σ (List Chain.Verification) := Table.all.mapM verifyChain

end TradeLedger.Work

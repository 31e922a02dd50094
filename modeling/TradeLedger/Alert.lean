/-
Alerts: what the ledger raises when safety is at stake, and where they go.
-/
import TradeLedger.Digest
import TradeLedger.Table

namespace TradeLedger

/-- Something that must not go unnoticed. -/
inductive Alert where
  /-- A chain does not verify. -/
  | chainIntegrity (table : Table) (position : Nat) (expected actual : Digest)
  /-- A signal was not recorded. -/
  | hotPathPersistence (table : Table) (reason : String)
  /-- The last attempt at an append failed. -/
  | retriesExhausted (table : Table) (attempts : Nat) (reason : String)
  deriving DecidableEq

namespace Alert

/-- Only a broken chain calls for a lockdown. -/
def isLockdown : Alert → Bool
  | .chainIntegrity .. => true
  | _ => false

end Alert

/-- Where alerts go besides the log. -/
inductive Sink where
  /-- To a receiver. -/
  | channel
  /-- To a receiver that has gone away. -/
  | dropped
  /-- Nowhere. -/
  | log
  deriving DecidableEq, Repr

end TradeLedger

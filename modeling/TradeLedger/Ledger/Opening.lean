/-
Opening a ledger on a site. The ends of the chains and the index are taken from the rows that the
store holds. A row that cannot be read means a broken chain, which is verified and raised as one.
-/
import TradeLedger.Ledger.Verify
import TradeLedger.Store.Memory

namespace TradeLedger

namespace Index

variable {σ : Type} [Store σ]

/-- The record of a row found in a store. -/
def found (r : Row) : Act σ Record :=
  match r.record with
  | .ok c => return c
  | .error damage => do
    Act.note (.rowUnreadable r.table r.position damage)
    throw (.chainBroken r.table r.position.toNat)

/-- Makes the signal of a row known, if it is one. -/
def recoverSignal (x : Index) (r : Row) : Act σ Index := do
  match (← found r).body with
  | .signal s => return x.restore s.dedupeKey s.correlationId
  | _ => return x

def recoverExecution (x : Index) (r : Row) : Act σ Index := do
  return x.registerExecution (← found r).recordId

/-- The index of all that a store holds. -/
def recover : Act σ Index := do
  let signals ← Act.ask (Store.scan .signals)
  let x ← signals.foldlM recoverSignal empty
  let executions ← Act.ask (Store.scan .orderExecutions)
  executions.foldlM recoverExecution x

end Index

namespace Work

variable {σ : Type} [Store σ]

/-- Fails for the first break among these verifications. -/
def requireIntact : List Chain.Verification → Work σ Unit
  | [] => return ()
  | .intact .. :: rest => requireIntact rest
  | .broken b :: _ => throw (.chainBroken b.table b.position)

/-- What the store says about the ends of the chains, and then about what exists. -/
def recovery (lockTimeout : Duration) : Act σ (Engine × Index) := do
  let engine ← Engine.recover lockTimeout
  let index ← Index.recover
  return (engine, index)

/-- Takes up the chains and the index. If a row cannot be read its chain is verified, and the first
break found is the failure. -/
def takeUp : Work σ Unit := do
  let lockTimeout := (← get).ledger.settings.chain.lockTimeout
  match ← outcome (recovery lockTimeout) with
  | .ok (engine, index) =>
    modify fun w => { w with ledger.engine := engine, ledger.index := index }
  | .error (.chainBroken t position) => do
    let v ← verifyChain t
    throw (.chainBroken t ((v.break?.map (·.position)).getD position))
  | .error f => throw f

/-- All that happens before a ledger can be used. -/
def startUp : Work σ Unit := do
  if (← get).ledger.settings.verifyOnOpen then
    requireIntact (← verifyAll)
  takeUp
  let ledger := (← get).ledger
  let settings := ledger.settings
  note (.opened settings.serviceName settings.backend.name ledger.index.committedCount)

end Work

namespace Ledger

variable {σ : Type} [Store σ]

/-- Opens a ledger on a site. -/
def opened (settings : Settings) (sink : Sink) (site : Site σ) : Except Failure Ledger × Site σ :=
  match Work.startUp { ledger := fresh settings sink, site } with
  | (.ok (), w) => (.ok w.ledger, w.site)
  | (.error f, w) => (.error f, w.site)

/-- Opens a ledger on the store that its settings name. Its alerts are only logged. -/
def ofSettings (settings : Settings) (now : Instant) : Except Failure (Running Memory) := do
  let store ← Memory.ofSettings settings
  let (ledger, site) := opened settings .log { store, now, journal := [], alerts := [] }
  return { ledger := ← ledger, site }

end Ledger

end TradeLedger

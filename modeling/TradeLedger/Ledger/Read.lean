/-
Reading from a ledger, and its answer to every attempt to change what is committed.
-/
import TradeLedger.Ledger
import TradeLedger.Request

namespace TradeLedger

/-- A signal with everything that was recorded about it. -/
structure Dossier where
  signal : Record
  deliberations : List Record
  executions : List Record
  deriving DecidableEq

namespace Work

variable {σ : Type} [Store σ]

/-- The record of a row. -/
def record (r : Row) : Work σ Record :=
  match r.record with
  | .ok c => return c
  | .error damage => throw (.serialization damage.message)

/-- The record at a position that the store has named. -/
def recordAt (t : Table) (position : UInt64) : Work σ Record := do
  match ← ask (Store.get t position) with
  | some r => record r
  | none =>
    throw (.storage s!"{t.name} link index names missing position {position.toNat}")

/-- The records of a table with a link, in the order of the chain. -/
def linked (t : Table) (link : Uuid) : Work σ (List Record) := do
  let positions ← ask (Store.positionsByLink t link)
  positions.mapM (recordAt t)

/-- A signal, by its identifier, with what was recorded about it. -/
def byCorrelation (id : Uuid) : Work σ (Option Dossier) := do
  match ← linked .signals id with
  | [] => return none
  | signal :: _ =>
    let deliberations ← linked .deliberations id
    let executions ← linked .orderExecutions id
    return some { signal, deliberations, executions }

/-- A signal, by its dedupe key. -/
def byDedupeKey (dedupeKey : String) : Work σ (Option Record) := do
  match (← get).ledger.index.lookup dedupeKey with
  | none => return none
  | some id => return (← linked .signals id).head?

/-- The events of an execution, in the order of the chain. -/
def eventsOf (executionId : Uuid) : Work σ (List Record) := linked .orderEvents executionId

/-- All records of a table, in the order of the chain. -/
def records (t : Table) : Work σ (List Record) := do
  let rows ← ask (Store.scan t)
  rows.mapM record

/-- Refuses to change what is committed. -/
def mutate (m : Mutation) : Work σ Empty := do
  let refusal := m.refusal
  refusal.notices.forM note
  modify (·.count (·.rejection refusal.failure.label))
  throw refusal.failure

end Work

end TradeLedger

/-
The index of identifiers: which signals and executions are committed, and which signals are under
way. A signal first reserves its dedupe key and an identifier nobody has; both become known when it
is committed, and are free again when it is not.
-/
import TradeLedger.Assoc
import TradeLedger.Failure

namespace TradeLedger

/-- Whether an identifier is merely held, or known to be that of a signal. -/
inductive Standing where
  | held
  | committed
  deriving DecidableEq, Repr

/-- What a dedupe key is taken by: a signal under way, or a committed one. -/
inductive Claim where
  | held
  | committed (correlationId : Uuid)
  deriving DecidableEq

/-- What exists, by identifier and by dedupe key. -/
structure Index where
  correlations : Assoc Uuid Standing
  dedupeKeys : Assoc String Claim
  executions : List Uuid
  deriving DecidableEq

/-- What a signal under way has reserved. -/
structure Reservation where
  dedupeKey : String
  correlationId : Uuid
  deriving DecidableEq

namespace Index

def empty : Index := ⟨.empty, .empty, []⟩

/-! ## Questions -/

/-- Whether a committed signal has this identifier. -/
def hasCorrelation (x : Index) (id : Uuid) : Bool :=
  x.correlations.get? id = some .committed

/-- Whether a committed execution has this identifier. -/
def hasExecution (x : Index) (id : Uuid) : Bool := x.executions.contains id

/-- The identifier of the committed signal with this dedupe key. -/
def lookup (x : Index) (dedupeKey : String) : Option Uuid :=
  match x.dedupeKeys.get? dedupeKey with
  | some (.committed id) => some id
  | _ => none

/-- How many identifiers of signals are committed. -/
def committedCount (x : Index) : Nat :=
  x.correlations.entries.countP fun e => e.2 = .committed

def requireCorrelation (x : Index) (id : Uuid) : Except Failure Unit :=
  if x.hasCorrelation id then .ok () else .error (.unknownReference .correlation id)

def requireExecution (x : Index) (id : Uuid) : Except Failure Unit :=
  if x.hasExecution id then .ok () else .error (.unknownReference .execution id)

/-! ## Reservations -/

/-- Holds an identifier, unless it is taken. -/
def reserve (x : Index) (id : Uuid) : Option Index :=
  if x.correlations.contains id then none
  else some { x with correlations := x.correlations.set id .held }

/-- Holds the first of these identifiers that is free. -/
def reserveFirst (x : Index) : List Uuid → Option (Uuid × Index)
  | [] => none
  | id :: rest =>
    match x.reserve id with
    | some y => some (id, y)
    | none => x.reserveFirst rest

/-- Reserves a dedupe key that nobody holds, together with the first free of the identifiers drawn
for it. -/
def reserveSignal (x : Index) (dedupeKey : String) (draws : List Uuid) :
    Except Failure (Reservation × Index) :=
  if x.dedupeKeys.contains dedupeKey then .error (.duplicateSignal dedupeKey)
  else
    match { x with dedupeKeys := x.dedupeKeys.set dedupeKey .held }.reserveFirst draws with
    | some (id, y) => .ok (⟨dedupeKey, id⟩, y)
    | none => .error .identifiersTaken

/-- Makes a signal found in a store known. -/
def restore (x : Index) (dedupeKey : String) (id : Uuid) : Index :=
  { x with
    correlations := x.correlations.set id .committed
    dedupeKeys := x.dedupeKeys.set dedupeKey (.committed id) }

/-- Makes a reserved signal known. -/
def commit (x : Index) (r : Reservation) : Index := x.restore r.dedupeKey r.correlationId

/-- Frees what a signal has reserved. What is committed stays so. -/
def release (x : Index) (r : Reservation) : Index :=
  { x with
    correlations :=
      if x.correlations.get? r.correlationId = some .held then x.correlations.erase r.correlationId
      else x.correlations
    dedupeKeys :=
      if x.dedupeKeys.get? r.dedupeKey = some .held then x.dedupeKeys.erase r.dedupeKey
      else x.dedupeKeys }

/-- Makes an execution known. -/
def registerExecution (x : Index) (id : Uuid) : Index :=
  if x.executions.contains id then x else { x with executions := x.executions ++ [id] }

end Index

end TradeLedger

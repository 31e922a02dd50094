/-
Why the ledger refuses something: the causes, the code an auditor knows a cause by, and its text.
-/
import TradeLedger.Decimal.Gateway
import TradeLedger.Duration
import TradeLedger.Table
import TradeLedger.Uuid

namespace TradeLedger

/-! ## Codes -/

/-- A change of what is committed. -/
inductive Change where
  | update
  | delete
  deriving DecidableEq, Repr

namespace Change

def name : Change → String
  | .update => "update"
  | .delete => "delete"

end Change

/-- What an identifier in a request refers to. -/
inductive Reference where
  /-- A committed signal. -/
  | correlation
  /-- A committed execution. -/
  | execution
  deriving DecidableEq, Repr

namespace Reference

def name : Reference → String
  | .correlation => "correlation"
  | .execution => "execution"

end Reference

/-- The causes that an auditor is told of by a code. -/
inductive AuditCode where
  | malformed
  | signalUpdate
  | signalDelete
  | deliberationUpdate
  | deliberationDelete
  /-- Orders and their events share their codes. -/
  | orderUpdate
  | orderDelete
  | unknownReference
  | brokenChain
  deriving DecidableEq, Repr

namespace AuditCode

def text : AuditCode → String
  | .malformed => "AUD-001"
  | .signalUpdate => "AUD-002"
  | .signalDelete => "AUD-003"
  | .deliberationUpdate => "AUD-004"
  | .deliberationDelete => "AUD-005"
  | .orderUpdate => "AUD-006"
  | .orderDelete => "AUD-007"
  | .unknownReference => "AUD-008"
  | .brokenChain => "AUD-009"

/-- The code of a change of a table. -/
def ofChange : Table → Change → AuditCode
  | .signals, .update => .signalUpdate
  | .signals, .delete => .signalDelete
  | .deliberations, .update => .deliberationUpdate
  | .deliberations, .delete => .deliberationDelete
  | .orderExecutions, .update | .orderEvents, .update => .orderUpdate
  | .orderExecutions, .delete | .orderEvents, .delete => .orderDelete

end AuditCode

/-! ## Failures -/

/-- Why the ledger refuses something. -/
inductive Failure where
  /-- A figure came in binary floating point. -/
  | floatContamination (field : String)
  | invalidDecimal (field reason : String)
  | malformedField (field reason : String)
  /-- What is committed does not change. -/
  | immutable (table : Table) (change : Change)
  | unknownReference (kind : Reference) (id : Uuid)
  | duplicateSignal (dedupeKey : String)
  | chainBroken (table : Table) (position : Nat)
  /-- Another append held the table for too long. -/
  | contended (table : Table) (waited : Duration)
  | unauthorized (principal action : String)
  | storage (reason : String)
  | serialization (reason : String)
  | configuration (reason : String)
  | io (reason : String)
  /-- Every identifier offered for a signal is taken. -/
  | identifiersTaken
  deriving DecidableEq

namespace Failure

/-- A figure that was not let in. -/
def ofRejection (field : String) : Rejection → Failure
  | .float => .floatContamination field
  | r => .invalidDecimal field r.reason

def code? : Failure → Option AuditCode
  | .floatContamination _ | .invalidDecimal .. | .malformedField .. => some .malformed
  | .immutable table change => some (.ofChange table change)
  | .unknownReference .. => some .unknownReference
  | .chainBroken .. => some .brokenChain
  | _ => none

def message : Failure → String
  | .floatContamination field => s!"AUD-001 float contamination in field `{field}`"
  | .invalidDecimal field reason => s!"AUD-001 invalid decimal in field `{field}`: {reason}"
  | .malformedField field reason => s!"AUD-001 malformed field `{field}`: {reason}"
  | .immutable table change =>
    let code := AuditCode.ofChange table change
    s!"{code.text} {change.name} rejected on immutable table {table.name}"
  | .unknownReference kind id => s!"AUD-008 unknown {kind.name} id {id.text}"
  | .duplicateSignal dedupeKey => s!"duplicate signal dedupe key `{dedupeKey}`"
  | .chainBroken table position =>
    s!"AUD-009 hash chain broken on {table.name} at position {position}"
  | .contended table waited => s!"append to {table.name} contended for more than {waited.text}"
  | .unauthorized principal action => s!"caller `{principal}` is not authorized to {action}"
  | .storage reason => s!"Storage error: {reason}"
  | .serialization reason => s!"Serialization error: {reason}"
  | .configuration reason => s!"Configuration error: {reason}"
  | .io reason => s!"IO error: {reason}"
  | .identifiersTaken => "no identifier is free"

/-- Whether a later attempt at the same append may succeed. -/
def retryable : Failure → Bool
  | .contended .. | .storage _ => true
  | _ => false

def isContention : Failure → Bool
  | .contended .. => true
  | _ => false

end Failure

/-! ## Labels -/

/-- What rejections are counted by: the code if there is one. -/
inductive Label where
  | code (c : AuditCode)
  | duplicate
  | contended
  | unauthorized
  | storage
  | serialization
  | other
  deriving DecidableEq, Repr

namespace Label

def text : Label → String
  | .code c => c.text
  | .duplicate => "duplicate"
  | .contended => "contended"
  | .unauthorized => "unauthorized"
  | .storage => "storage"
  | .serialization => "serialization"
  | .other => "other"

end Label

namespace Failure

def label (f : Failure) : Label :=
  match f.code?, f with
  | some c, _ => .code c
  | none, .duplicateSignal _ => .duplicate
  | none, .contended .. => .contended
  | none, .unauthorized .. => .unauthorized
  | none, .storage _ | none, .io _ => .storage
  | none, .serialization _ => .serialization
  | none, _ => .other

end Failure

end TradeLedger

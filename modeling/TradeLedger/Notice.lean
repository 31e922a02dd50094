/-
Notices: everything the ledger writes to its log, by what happened, and the text and fields each is
written with.
-/
import TradeLedger.Alert
import TradeLedger.Caller
import TradeLedger.Chain.Verification
import TradeLedger.Failure

namespace TradeLedger

/-- How grave a notice is. -/
inductive Level where
  | debug
  | info
  | warning
  | error
  deriving DecidableEq, Repr

namespace Level

def name : Level → String
  | .debug => "DEBUG"
  | .info => "INFO"
  | .warning => "WARN"
  | .error => "ERROR"

end Level

/-- An attempt to change what is committed. -/
structure Mutation where
  table : Table
  change : Change
  position : Nat
  caller : Caller
  deriving DecidableEq, Repr

/-- Something worth a line in the log. -/
inductive Notice where
  /-- A figure was not let in; a request about a signal names it. -/
  | figureRejected (field : String) (correlationId : Option Uuid) (cause : Rejection)
  | emptyField (field : String)
  | withoutGrant (caller : Caller) (table : Table)
  | mutationRejected (m : Mutation)
  | duplicateSignal (dedupeKey : String)
  | unknownReference (kind : Reference) (id : Uuid)
  | signalFailed (correlationId : Uuid) (cause : Failure)
  | signalCommitted (position : UInt64) (correlationId : Uuid)
  /-- The delay is what the settings give, before jitter: up to half as much again is waited, by chance. -/
  | retrying (table : Table) (attempt : Nat) (delay : Duration) (cause : Failure)
  | retried (table : Table) (attempt : Nat) (position : UInt64)
  /-- A store took a row. -/
  | stored (r : Row)
  | tailUnreadable (table : Table) (position : UInt64)
  | tailRecovered (table : Table) (tail : Chain.Tail)
  | rowUnreadable (table : Table) (position : UInt64) (cause : Damage)
  | chainIntact (table : Table) (tail : Chain.Tail)
  | chainBroken (b : Chain.Break)
  | alert (a : Alert)
  | receiverGone
  | opened (service backend : String) (signals : Nat)
  deriving DecidableEq

namespace Notice

/-- The value of a field. -/
inductive Value where
  | text (s : String)
  | number (n : Nat)
  | flag (b : Bool)
  deriving DecidableEq, Repr

def level : Notice → Level
  | .stored _ | .signalCommitted .. => .debug
  | .retried .. | .tailRecovered .. | .chainIntact .. | .opened .. => .info
  | .signalFailed .. | .chainBroken _ | .alert _ | .receiverGone => .error
  | _ => .warning

/-- Whether a notice is of concern to security. -/
def isSecurity : Notice → Bool
  | .withoutGrant .. | .mutationRejected _ => true
  | _ => false

def message : Notice → String
  | .figureRejected _ _ .float => "binary floating point rejected"
  | .figureRejected .. => "decimal rejected"
  | .emptyField _ => "empty field rejected"
  | .withoutGrant .. => "append without grant rejected"
  | .mutationRejected _ => "modification of committed record rejected"
  | .duplicateSignal _ => "duplicate signal rejected"
  | .unknownReference kind _ => s!"unknown {kind.name} id"
  | .signalFailed .. => "signal append failed"
  | .signalCommitted .. => "signal committed"
  | .retrying .. => "append failed, retrying"
  | .retried .. => "append succeeded after retry"
  | .stored _ => "Record appended"
  | .tailUnreadable .. => "Chain tail unreadable"
  | .tailRecovered .. => "Chain tail recovered"
  | .rowUnreadable .. => "Stored row unreadable"
  | .chainIntact .. => "chain intact"
  | .chainBroken _ => "chain verification failed"
  | .alert (.chainIntegrity ..) => "LOCKDOWN: hash chain integrity failure"
  | .alert (.hotPathPersistence ..) => "hot path persistence failure, signal not recorded"
  | .alert (.retriesExhausted ..) => "append retries exhausted"
  | .receiverGone => "escalation receiver dropped, alert only logged"
  | .opened .. => "Ledger opened"

/-- The fields, by name. -/
def fields : Notice → List (String × Value)
  | .figureRejected field correlationId cause =>
    let base := [("code", .text AuditCode.malformed.text), ("field", .text field),
      ("correlation_id", .text (correlationId.elim "-" Uuid.text))]
    match cause with
    | .float => base
    | cause => base ++ [("reason", .text cause.reason)]
  | .emptyField field => [("code", .text AuditCode.malformed.text), ("field", .text field)]
  | .withoutGrant caller table =>
    [("principal", .text caller.principal), ("role", .text caller.role.name),
      ("table", .text table.name)]
  | .mutationRejected m =>
    [("code", .text (AuditCode.ofChange m.table m.change).text), ("table", .text m.table.name),
      ("operation", .text m.change.name), ("position", .number m.position),
      ("principal", .text m.caller.principal), ("role", .text m.caller.role.name),
      ("privileged", .flag m.caller.role.mayMutate),
      ("append_identity", .flag (m.caller.role.mayAppend m.table))]
  | .duplicateSignal dedupeKey => [("dedupe_key", .text dedupeKey)]
  | .unknownReference kind id =>
    [("code", .text AuditCode.unknownReference.text), (s!"{kind.name}_id", .text id.text)]
  | .signalFailed correlationId cause =>
    [("table", .text Table.signals.name), ("correlation_id", .text correlationId.text),
      ("error", .text cause.message)]
  | .signalCommitted position correlationId =>
    [("table", .text Table.signals.name), ("position", .number position.toNat),
      ("correlation_id", .text correlationId.text)]
  | .retrying table attempt delay cause =>
    [("table", .text table.name), ("attempt", .number attempt),
      ("backoff_ms", .number delay.millis), ("error", .text cause.message)]
  | .retried table attempt position =>
    [("table", .text table.name), ("attempt", .number attempt),
      ("position", .number position.toNat)]
  | .stored r =>
    [("table", .text r.table.name), ("position", .number r.position.toNat),
      ("record_id", .text r.recordId.text)]
  | .tailUnreadable table position =>
    [("table", .text table.name), ("position", .number position.toNat)]
  | .tailRecovered table tail =>
    [("table", .text table.name), ("position", .number tail.position),
      ("tail", .text tail.digest.hex)]
  | .rowUnreadable table position cause =>
    [("table", .text table.name), ("position", .number position.toNat),
      ("error", .text (Failure.serialization cause.message).message)]
  | .chainIntact table tail =>
    [("table", .text table.name), ("records", .number tail.position),
      ("tail", .text tail.digest.hex)]
  | .chainBroken b =>
    [("code", .text AuditCode.brokenChain.text), ("table", .text b.table.name),
      ("position", .number b.position), ("record_id", .text b.recordId.text),
      ("kind", .text b.flaw.text)]
  | .alert (.chainIntegrity table position expected actual) =>
    [("code", .text AuditCode.brokenChain.text), ("table", .text table.name),
      ("position", .number position), ("expected", .text expected.hex),
      ("actual", .text actual.hex)]
  | .alert (.hotPathPersistence table reason) =>
    [("table", .text table.name), ("reason", .text reason)]
  | .alert (.retriesExhausted table attempts reason) =>
    [("table", .text table.name), ("attempts", .number attempts), ("reason", .text reason)]
  | .receiverGone => []
  | .opened service backend signals =>
    [("service", .text service), ("backend", .text backend), ("signals", .number signals)]

end Notice

end TradeLedger

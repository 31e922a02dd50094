/-
What the ledger shows of itself, as JSON documents: records and rows, the outcome of verifications
and appends, failures, alerts and lines of the log. Digests and identifiers are shown as their text,
octets as hexadecimal digits, decimals as their text, and what is not there as null.
-/
import TradeLedger.Engine
import TradeLedger.Metrics
import TradeLedger.Settings

namespace TradeLedger

namespace Json

def ofNat (n : Nat) : Json := .integer n

def orNull {α : Type} (f : α → Json) : Option α → Json
  | none => .null
  | some a => f a

end Json

/-! ## Records -/

namespace Decimal

def view (d : Decimal) : Json := .text d.text

end Decimal

namespace Uuid

def view (u : Uuid) : Json := .text u.text

end Uuid

namespace Digest

def view (d : Digest) : Json := .text d.hex

end Digest

namespace Table

def view (t : Table) : Json := .text t.name

end Table

namespace Instant

def view (t : Instant) : Json := .integer t.toInt

end Instant

namespace Body

def view : Body → Json
  | .signal s => .ofMembers [("kind", .text "signal"), ("dedupe_key", .text s.dedupeKey),
      ("correlation_id", s.correlationId.view), ("symbol", .text s.symbol),
      ("side", .text s.side.name), ("price", .orNull Decimal.view s.price),
      ("quantity", s.quantity.view), ("raw_body_hex", .text (Hex.encode s.request)),
      ("source_address", .orNull .text s.sourceAddress), ("auth_verified", .bool s.authenticated)]
  | .deliberation d => .ofMembers [("kind", .text "deliberation"),
      ("correlation_id", d.correlationId.view), ("model_id", .text d.model),
      ("reasoning_json", .text d.reasoning), ("confidence", d.confidence.view),
      ("elapsed_ms", .ofNat d.elapsedMillis.toNat), ("timed_out", .bool d.timedOut)]
  | .execution e => .ofMembers [("kind", .text "execution"),
      ("correlation_id", e.correlationId.view), ("order_kind", .text e.kind.name),
      ("symbol", .text e.symbol), ("side", .text e.side.name),
      ("quantity", e.quantity.view), ("price", .orNull Decimal.view e.price),
      ("external_order_id", .orNull .text e.externalOrderId), ("status", .text e.status.name)]
  | .event e => .ofMembers [("kind", .text "event"), ("execution_id", e.executionId.view),
      ("event_kind", .text e.kind.name), ("fill_quantity", .orNull Decimal.view e.fillQuantity),
      ("fill_price", .orNull Decimal.view e.fillPrice),
      ("equity_snapshot", .orNull Decimal.view e.equity),
      ("closed_positions_json", .orNull .text e.closedPositions),
      ("rejection_detail", .orNull .text e.rejectionDetail),
      ("external_error_code", .orNull .text e.externalErrorCode)]

end Body

namespace Record

def view (r : Record) : Json :=
  .ofMembers [("table", r.table.view), ("position", .ofNat r.position.toNat),
    ("record_id", r.recordId.view), ("created_at_micros", Instant.view r.createdAt),
    ("chain_hash", r.digest.view), ("body", r.body.view)]

end Record

namespace Envelope

def view (e : Envelope) : Json :=
  .ofMembers [("table", e.table.view), ("position", .ofNat e.position.toNat),
    ("record_id", e.recordId.view), ("link_id", e.linkId.view),
    ("created_at_micros", Instant.view e.createdAt), ("body", e.body.view)]

end Envelope

namespace Row

def view (r : Row) : Json :=
  .ofMembers [("table", r.table.view), ("position", .ofNat r.position.toNat),
    ("record_id", r.recordId.view), ("link_id", r.linkId.view),
    ("content", .text (Hex.encode r.content)), ("chain_hash", r.digest.view)]

end Row

/-! ## Outcomes -/

namespace Receipt

def view (r : Receipt) : Json :=
  .ofMembers [("table", r.table.view), ("position", .ofNat r.position.toNat),
    ("record_id", r.recordId.view), ("link_id", r.linkId.view), ("chain_hash", r.digest.view),
    ("created_at_micros", Instant.view r.createdAt)]

end Receipt

namespace Chain.Verification

/-- The number of records of an intact chain, the text of the failure that a break amounts to. -/
def result : Verification → Json
  | .intact _ tail => .ofNat tail.position
  | .broken b => .text (Failure.chainBroken b.table b.position).message

def view (v : Verification) : Json :=
  match v with
  | .intact table tail => .ofMembers [("intact", .bool true), ("table", table.view),
      ("records", .ofNat tail.position), ("tail", tail.digest.view), ("into_result", v.result)]
  | .broken b => .ofMembers [("intact", .bool false), ("table", b.table.view),
      ("position", .ofNat b.position), ("record_id", b.recordId.view),
      ("expected_hash", b.expected.view), ("actual_hash", b.actual.view),
      ("kind", .text b.flaw.text), ("into_result", v.result)]

end Chain.Verification

namespace Chain.Tail

def view (t : Tail) : Json :=
  .ofMembers [("position", .ofNat t.position), ("hash", t.digest.view),
    ("last_created_at_micros", Instant.view t.createdAt)]

end Chain.Tail

namespace Failure

/-- The name of the kind of failure. -/
def kind : Failure → String
  | .floatContamination _ => "FloatContamination"
  | .invalidDecimal .. => "InvalidDecimal"
  | .malformedField .. => "MalformedField"
  | .immutable .. => "Immutable"
  | .unknownReference .. => "UnknownReference"
  | .duplicateSignal _ => "DuplicateSignal"
  | .chainBroken .. => "ChainBroken"
  | .contended .. => "Contended"
  | .unauthorized .. => "Unauthorized"
  | .storage _ => "Storage"
  | .serialization _ => "Serialization"
  | .configuration _ => "Config"
  | .io _ => "Io"
  | .identifiersTaken => "IdentifiersTaken"

def view (f : Failure) : Json :=
  .ofMembers [("error", .text f.kind), ("message", .text f.message),
    ("code", .orNull (fun c => .text c.text) f.code?), ("label", .text f.label.text),
    ("retryable", .bool f.retryable)]

end Failure

/-! ## Alerts and the log -/

namespace Alert

def view (a : Alert) : Json :=
  match a with
  | .chainIntegrity table position expected actual => .ofMembers [("alert", .text "ChainIntegrity"),
      ("table", table.view), ("position", .ofNat position), ("expected", expected.view),
      ("actual", actual.view), ("lockdown", .bool a.isLockdown)]
  | .hotPathPersistence table reason => .ofMembers [("alert", .text "HotPathPersistence"),
      ("table", table.view), ("reason", .text reason), ("lockdown", .bool a.isLockdown)]
  | .retriesExhausted table attempts reason => .ofMembers [("alert", .text "RetriesExhausted"),
      ("table", table.view), ("attempts", .ofNat attempts), ("reason", .text reason),
      ("lockdown", .bool a.isLockdown)]

end Alert

namespace Notice

namespace Value

def view : Value → Json
  | .text s => .text s
  | .number n => .ofNat n
  | .flag b => .bool b

end Value

/-- A line of the log. Only notices of concern to security name whom they are for. -/
def view (n : Notice) : Json :=
  .ofMembers (n.fields.map (fun f => (f.1, f.2.view)) ++
    [("level", .text n.level.name), ("message", .text n.message)] ++
    if n.isSecurity then [("target", .text "security")] else [])

end Notice

namespace Metrics

/-- The samples of each family, by label. -/
def view (m : Metrics) : Json :=
  .ofMembers (m.families.map fun f => (f.1, .ofMembers (f.2.map fun s => (s.1, .ofNat s.2))))

end Metrics

/-! ## Settings -/

namespace Settings

def view (s : Settings) : Json :=
  .ofMembers [("data_dir", .text s.dataDirectory), ("service_name", .text s.serviceName),
    ("storage", .ofMembers [("backend", .text s.backend.word)]),
    ("rocksdb", .ofMembers [("write_buffer_size_mb", .ofNat s.database.writeBufferMegabytes),
      ("max_write_buffer_number", .integer s.database.writeBuffers),
      ("max_background_jobs", .integer s.database.backgroundJobs),
      ("sync_writes", .bool s.database.syncWrites)]),
    ("chain", .ofMembers [("lock_timeout_ms", .ofNat s.chain.lockTimeoutMillis)]),
    ("retry", .ofMembers [("max_attempts", .ofNat s.retry.maxAttempts),
      ("backoff_ms", .ofNat s.retry.backoffMillis),
      ("max_backoff_ms", .ofNat s.retry.maxBackoffMillis)]),
    ("verify_on_open", .bool s.verifyOnOpen)]

end Settings

end TradeLedger

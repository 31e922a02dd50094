/-
Settings from a file and from the environment. A file is a TOML document: what it does not say keeps
its default, what it says besides is left alone, and a value of the wrong kind spoils it. The
environment has the last word.
-/
import TradeLedger.Settings
import TradeLedger.Text.Numeral
import TradeLedger.Toml.Reader

namespace TradeLedger

-- powers are those of the numbers themselves, whatever algebra is imported
attribute [local instance (high)] instPowNat

/-! ## Sections of a file -/

namespace Toml

def asText? : Toml → Option String
  | .text s => some s
  | _ => none

def asBool? : Toml → Option Bool
  | .boolean b => some b
  | _ => none

/-- An integer from `low` up to `high`. -/
def asInteger? (low high : Int) : Toml → Option Int
  | .integer i => if low ≤ i ∧ i ≤ high then some i else none
  | _ => none

/-- A number below `2 ^ bits`. -/
def asNatural? (bits : Nat) (v : Toml) : Option Nat :=
  (asInteger? 0 (2 ^ bits - 1) v).map Int.toNat

/-- What a section says under a key, or at the place that the key has among its keys. -/
structure Section where
  item : (key : String) → (place : Nat) → Option Toml

namespace Section

/-- A table is a section, and so is a list of values in the order of the keys. A moment says nothing
under any key that settings know. -/
def of? : Toml → Option Section
  | .table _ ms => some ⟨fun k _ => find? k ms⟩
  | .list vs => some ⟨fun _ i => vs[i]?⟩
  | .tables es => some ⟨fun _ i => (es[i]?).map (.table .header)⟩
  | .moment => some ⟨fun _ _ => none⟩
  | _ => none

/-- A value of the section, or its default. -/
def read {α : Type} (s : Section) (key : String) (place : Nat) (as? : Toml → Option α)
    (default : α) : Option α :=
  match s.item key place with
  | none => some default
  | some v => as? v

end Section

end Toml

namespace Backend

/-- A word, or a table with the word as its only key and nothing in it. -/
def ofToml? : Toml → Option Backend
  | .text s => ofWord? s
  | .table _ [(k, .table _ [])] | .table _ [(k, .list [])] | .table _ [(k, .tables [])] => ofWord? k
  | _ => none

end Backend

namespace DatabaseSettings

def ofToml? (v : Toml) : Option DatabaseSettings := do
  let s ← Toml.Section.of? v
  let d : DatabaseSettings := {}
  let int32? := Toml.asInteger? (-(2 ^ (31 : Nat))) (2 ^ (31 : Nat) - 1)
  let writeBufferMegabytes ←
    s.read "write_buffer_size_mb" 0 (Toml.asNatural? 64) d.writeBufferMegabytes
  let writeBuffers ← s.read "max_write_buffer_number" 1 int32? d.writeBuffers
  let backgroundJobs ← s.read "max_background_jobs" 2 int32? d.backgroundJobs
  let syncWrites ← s.read "sync_writes" 3 Toml.asBool? d.syncWrites
  return { writeBufferMegabytes, writeBuffers, backgroundJobs, syncWrites }

end DatabaseSettings

namespace ChainSettings

def ofToml? (v : Toml) : Option ChainSettings := do
  let s ← Toml.Section.of? v
  let d : ChainSettings := {}
  let lockTimeoutMillis ← s.read "lock_timeout_ms" 0 (Toml.asNatural? 64) d.lockTimeoutMillis
  return { lockTimeoutMillis }

end ChainSettings

namespace RetrySettings

def ofToml? (v : Toml) : Option RetrySettings := do
  let s ← Toml.Section.of? v
  let d : RetrySettings := {}
  let maxAttempts ← s.read "max_attempts" 0 (Toml.asNatural? 32) d.maxAttempts
  let backoffMillis ← s.read "backoff_ms" 1 (Toml.asNatural? 64) d.backoffMillis
  let maxBackoffMillis ← s.read "max_backoff_ms" 2 (Toml.asNatural? 64) d.maxBackoffMillis
  return { maxAttempts, backoffMillis, maxBackoffMillis }

end RetrySettings

namespace Settings

/-- The section that names the backend. -/
def storage? (v : Toml) : Option Backend := do
  let s ← Toml.Section.of? v
  s.read "backend" 0 Backend.ofToml? .memory

def ofToml? (root : Toml.Members) : Option Settings := do
  let s ← Toml.Section.of? (.table .header root)
  let d : Settings := {}
  let dataDirectory ← s.read "data_dir" 0 Toml.asText? d.dataDirectory
  let serviceName ← s.read "service_name" 1 Toml.asText? d.serviceName
  let backend ← s.read "storage" 2 storage? d.backend
  let database ← s.read "rocksdb" 3 DatabaseSettings.ofToml? d.database
  let chain ← s.read "chain" 4 ChainSettings.ofToml? d.chain
  let retry ← s.read "retry" 5 RetrySettings.ofToml? d.retry
  let verifyOnOpen ← s.read "verify_on_open" 6 Toml.asBool? d.verifyOnOpen
  return { dataDirectory, serviceName, backend, database, chain, retry, verifyOnOpen }

/-! ## Files -/

/-- A file as it was found. -/
inductive File where
  /-- It could not be read. -/
  | unreadable (reason : String)
  | found (content : Bytes)

/-- There is no such file. -/
def File.missing : File := .unreadable "No such file or directory (os error 2)"

/-- The settings of a file, if they are fit. -/
def ofFile : File → Except Failure Settings
  | .unreadable reason => throw (.io reason)
  | .found content => do
    let some text := Bytes.toText? content | throw (.io "stream did not contain valid UTF-8")
    let some settings := (Toml.parse? text).bind ofToml? |
      throw (.configuration "Failed to parse config")
    settings.validate
    return settings

/-! ## The environment -/

/-- What the environment says, by name. -/
abbrev Environment := String → Option String

/-- A number from the environment, with blanks around it. -/
def number (env : Environment) (name : String) (bits default : Nat) : Except Failure Nat :=
  match env name with
  | none => return default
  | some s =>
    match Text.Numeral.natural (2 ^ bits) (Text.trim s) with
    | .ok n => return n
    | .error fault => throw (.configuration s!"Invalid {name}: {fault.message}")

/-- Settings with what the environment says instead, if they are fit. -/
def withEnvironment (s : Settings) (env : Environment) : Except Failure Settings := do
  let dataDirectory := (env "AUDIT_LEDGER_DATA_DIR").getD s.dataDirectory
  let backend ←
    match env "AUDIT_LEDGER_BACKEND" with
    | none => pure s.backend
    | some text => Backend.ofText text
  let lockTimeoutMillis ← number env "AUDIT_LEDGER_LOCK_TIMEOUT_MS" 64 s.chain.lockTimeoutMillis
  let maxAttempts ← number env "AUDIT_LEDGER_RETRY_MAX_ATTEMPTS" 32 s.retry.maxAttempts
  let s := { s with
    dataDirectory, backend
    chain.lockTimeoutMillis := lockTimeoutMillis
    retry.maxAttempts := maxAttempts }
  s.validate
  return s

/-- The settings of a file, or the defaults, with what the environment says instead. -/
def load (file : Option File) (env : Environment) : Except Failure Settings := do
  let s ←
    match file with
    | some file => ofFile file
    | none => pure {}
  s.withEnvironment env

end Settings

end TradeLedger

/-
Settings of a ledger and their defaults, what makes them unfit, and how long to wait before an
attempt is repeated.
-/
import TradeLedger.Failure
import TradeLedger.Text.Blank

namespace TradeLedger

-- powers are those of the numbers themselves, whatever algebra is imported
attribute [local instance (high)] instPowNat

/-- What keeps the rows. -/
inductive Backend where
  | memory
  | rocksdb
  deriving DecidableEq, Repr

namespace Backend

/-- The word for it in a file. -/
def word : Backend → String
  | .memory => "memory"
  | .rocksdb => "rocksdb"

/-- The name for it in the log. -/
def name : Backend → String
  | .memory => "Memory"
  | .rocksdb => "Rocksdb"

def ofWord? : String → Option Backend
  | "memory" => some .memory
  | "rocksdb" => some .rocksdb
  | _ => none

/-- Reads the word in letters of either case, with blanks around it. -/
def ofText (s : String) : Except Failure Backend :=
  let lowered := (Text.trim s).toLower
  match ofWord? lowered with
  | some b => .ok b
  | none => .error (.configuration s!"Unknown storage backend: {lowered}")

end Backend

/-- How a database on disk is tuned. -/
structure DatabaseSettings where
  writeBufferMegabytes : Nat := 64
  writeBuffers : Int := 4
  backgroundJobs : Int := 4
  /-- Whether every write waits for the disk. -/
  syncWrites : Bool := true
  deriving DecidableEq, Repr

structure ChainSettings where
  /-- How long an append waits for its table. -/
  lockTimeoutMillis : Nat := 5
  deriving DecidableEq, Repr

namespace ChainSettings

def lockTimeout (c : ChainSettings) : Duration := .ofMillis c.lockTimeoutMillis

end ChainSettings

structure RetrySettings where
  maxAttempts : Nat := 3
  backoffMillis : Nat := 10
  maxBackoffMillis : Nat := 500
  deriving DecidableEq, Repr

namespace RetrySettings

/-- The largest number of 64 bits. -/
def largest : Nat := UInt64.size - 1

/-- The delay before a retry is doubled each time, sixteen times at most, up to a limit. What does not fit
into 64 bits when it is doubled is the largest number that does. -/
def backoff (r : RetrySettings) (retry : Nat) : Duration :=
  let doubled := min (r.backoffMillis * 2 ^ min (retry - 1) 16) largest
  .ofMillis (min doubled r.maxBackoffMillis)

end RetrySettings

/-- The settings of a ledger. -/
structure Settings where
  dataDirectory : String := "./data/audit-ledger"
  serviceName : String := "audit-ledger"
  backend : Backend := .memory
  database : DatabaseSettings := {}
  chain : ChainSettings := {}
  retry : RetrySettings := {}
  /-- Whether every chain is verified before the ledger is used. -/
  verifyOnOpen : Bool := false
  deriving DecidableEq, Repr

namespace Settings

/-- An append is attempted at least once, and a service has a name. -/
def validate (s : Settings) : Except Failure Unit := do
  if s.retry.maxAttempts = 0 then
    throw (.configuration "retry.max_attempts must be at least 1")
  if Text.blank s.serviceName then
    throw (.configuration "service_name must not be empty")

end Settings

end TradeLedger

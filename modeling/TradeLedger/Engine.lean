/-
The engine that writes the chains. For each table it knows the end of the chain, and lets one append
at a time pass: a row is stamped, which holds the table, then stored, and then the table is let go.
The end of the chain moves only when the row was stored.
-/
import TradeLedger.Site

namespace TradeLedger

/-- The writer of the chains. -/
structure Engine where
  tails : PerTable Chain.Tail
  /-- The tables with an append under way. -/
  held : PerTable Bool
  /-- How long another append waits for its table. -/
  lockTimeout : Duration
  deriving DecidableEq

/-- What an append is answered with. -/
structure Receipt where
  table : Table
  position : UInt64
  recordId : Uuid
  linkId : Uuid
  digest : Digest
  /-- As a calendar shows it. -/
  createdAt : Instant
  deriving DecidableEq

/-- A row on its way to the store. -/
structure Stamp where
  row : Row
  createdAt : Instant
  deriving DecidableEq

namespace Stamp

/-- The end of the chain once the row is stored. -/
def tail (s : Stamp) : Chain.Tail := ⟨s.row.position.toNat, s.row.digest, s.createdAt⟩

def receipt (s : Stamp) : Receipt where
  table := s.row.table
  position := s.row.position
  recordId := s.row.recordId
  linkId := s.row.linkId
  digest := s.row.digest
  createdAt := Instant.calendar s.createdAt

end Stamp

namespace Engine

variable {σ : Type}

/-- An engine for tables without rows. -/
def fresh (lockTimeout : Duration) : Engine where
  tails := .ofFn Chain.Tail.empty
  held := .ofFn fun _ => false
  lockTimeout

/-! ## Appending -/

/-- The end of a chain, unless an append holds the table. -/
def tail (e : Engine) (t : Table) : Except Failure Chain.Tail :=
  if e.held.get t then .error (.contended t e.lockTimeout) else .ok (e.tails.get t)

/-- What follows the end of a chain. It is created now, but never before the row in front of it. -/
def envelope (before : Chain.Tail) (now : Instant) (recordId : Uuid) (body : Body) : Envelope where
  table := body.table
  position := UInt64.ofNat (before.position + 1)
  recordId
  linkId := body.linkId
  createdAt := max now before.createdAt
  body

/-- Makes the row that follows the end of a chain. -/
def follow (before : Chain.Tail) (now : Instant) (recordId : Uuid) (body : Body) : Stamp :=
  let e := envelope before now recordId body
  let content := e.encode
  { row :=
      { table := e.table, position := e.position, recordId := e.recordId, linkId := e.linkId, content
        digest := Chain.link before.digest content }
    createdAt := e.createdAt }

/-- Stamps a body and holds its table. -/
def stamp (e : Engine) (now : Instant) (recordId : Uuid) (body : Body) :
    Except Failure (Stamp × Engine) := do
  let before ← e.tail body.table
  return (follow before now recordId body, { e with held := e.held.set body.table true })

/-- Lets go of the table of a row, which now ends the chain if it was stored. -/
def settle (e : Engine) (s : Stamp) (stored : Bool) : Engine where
  tails := if stored then e.tails.set s.row.table s.tail else e.tails
  held := e.held.set s.row.table false
  lockTimeout := e.lockTimeout

/-- Stores a stamped row. -/
def complete [Store σ] (e : Engine) (s : Stamp) (site : Site σ) :
    Except Failure Receipt × Engine × Site σ :=
  match site.put s.row.table s.row with
  | (.ok (), site) => (.ok s.receipt, e.settle s true, site)
  | (.error f, site) => (.error f, e.settle s false, site)

/-- Puts a body at the end of its chain. -/
def append [Store σ] (e : Engine) (recordId : Uuid) (body : Body) (site : Site σ) :
    Except Failure Receipt × Engine × Site σ :=
  match e.stamp site.now recordId body with
  | .ok (s, e) => e.complete s site
  | .error f => (.error f, e, site)

/-! ## Recovery -/

/-- The end of a chain whose last row is this, if the content of the row says that it is the row of
that place. -/
def tailOf? (t : Table) (last : Row) : Option Chain.Tail :=
  match Envelope.decode last.content with
  | .ok e =>
    if e.table = t ∧ e.position = last.position then
      some ⟨last.position.toNat, last.digest, e.createdAt⟩
    else none
  | .error _ => none

/-- Takes up the chain of one table where the store ends. -/
def recoverTable [Store σ] (e : Engine) (t : Table) : Act σ Engine := do
  match ← Act.ask (Store.tail t) with
  | none => return e
  | some last =>
    match tailOf? t last with
    | some tail =>
      Act.note (.tailRecovered t tail)
      return { e with tails := e.tails.set t tail }
    | none =>
      Act.note (.tailUnreadable t last.position)
      throw (.chainBroken t last.position.toNat)

/-- An engine that takes up every chain where the store ends. -/
def recover [Store σ] (lockTimeout : Duration) : Act σ Engine :=
  Table.all.foldlM recoverTable (fresh lockTimeout)

end Engine

end TradeLedger

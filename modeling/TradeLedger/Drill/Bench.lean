/-
A store for drills: rows in memory behind switches that make operations fail, change a row before it
is stored, and show rows other than they are.
-/
import TradeLedger.Store.Memory

namespace TradeLedger.Drill

/-! ## Edits of rows -/

/-- Changes to a row, made in the order of the fields. -/
structure Edit where
  content : Option Bytes := none
  /-- Flips bits of one octet of the content; a negative place counts from the end. -/
  flip : Option (Int × UInt8) := none
  /-- Cuts the content to a length. -/
  truncate : Option Nat := none
  /-- Adds octets to the content. -/
  extend : Option Bytes := none
  recordId : Option Uuid := none
  linkId : Option Uuid := none
  digest : Option Digest := none
  position : Option UInt64 := none
  table : Option Table := none
  deriving DecidableEq

namespace Edit

/-- Flips bits of the octet at a place, if there is one. -/
def flipAt (b : Bytes) (place : Int) (mask : UInt8) : Bytes :=
  let i := if place < 0 then place + b.length else place
  if i < 0 then b else b.modify i.toNat (· ^^^ mask)

def applyContent (e : Edit) (b : Bytes) : Bytes :=
  let b := e.content.getD b
  let b := match e.flip with
    | some (place, mask) => flipAt b place mask
    | none => b
  let b := match e.truncate with
    | some length => b.take length
    | none => b
  b ++ e.extend.getD []

def apply (e : Edit) (r : Row) : Row where
  content := e.applyContent r.content
  recordId := e.recordId.getD r.recordId
  linkId := e.linkId.getD r.linkId
  digest := e.digest.getD r.digest
  position := e.position.getD r.position
  table := e.table.getD r.table

end Edit

/-! ## The bench -/

/-- How an append fails. -/
inductive AppendFault where
  | storage (message : String)
  | io (message : String)
  | serialization (message : String)
  | immutable
  | contended
  deriving DecidableEq, Repr

namespace AppendFault

def failure (t : Table) : AppendFault → Failure
  | .storage m => .storage m
  | .io m => .io m
  | .serialization m => .serialization m
  | .immutable => .immutable t .update
  | .contended => .contended t (.ofMillis 7)

end AppendFault

/-- The ways to read a store. -/
inductive ReadMethod where
  | scan
  | get
  | tail
  | positionsByLink
  deriving DecidableEq, Repr

/-- What is shown instead of a row: the row with edits, or nothing. -/
structure Tamper where
  table : Table
  position : UInt64
  edit : Edit
  hidden : Bool

/-- Rows in memory, and what is to go wrong with them. -/
structure Bench where
  memory : Memory
  /-- How the next appends fail. -/
  appendFaults : List AppendFault
  /-- The first waits for a read of its kind, and the others for the first. -/
  readFaults : List (ReadMethod × String)
  /-- Edits of the next rows that reach the memory. -/
  rewrites : List Edit
  tampers : List Tamper
  /-- Positions named besides those of a link. -/
  extraLinks : List (Table × Uuid × UInt64)

namespace Bench

def empty : Bench := ⟨.empty, [], [], [], [], []⟩

/-- What is shown of a row. -/
def shown (b : Bench) (r : Row) : Option Row :=
  (b.tampers.filter fun t => t.table = r.table ∧ t.position = r.position).foldl
    (fun row t => if t.hidden then none else row.map t.edit.apply) (some r)

/-- The rows of a table, as they are shown. -/
def rows (b : Bench) (t : Table) : List Row := (b.memory.rows.get t).filterMap b.shown

/-- A read, unless its fault is due. -/
def reading (b : Bench) (method : ReadMethod) (a : α) : Except Failure α × Bench :=
  match b.readFaults with
  | (m, message) :: rest =>
    if m = method then (.error (.storage message), { b with readFaults := rest }) else (.ok a, b)
  | [] => (.ok a, b)

/-- Appends a row to the memory, with the edit that is due. -/
def store (b : Bench) (permit : Table) (r : Row) : Except Failure Row × Bench :=
  let (r, rewrites) :=
    match b.rewrites with
    | e :: rest => (e.apply r, rest)
    | [] => (r, [])
  let (answer, memory) := Store.append permit r b.memory
  (answer, { b with rewrites, memory })

instance : Store Bench where
  append permit r b :=
    match b.appendFaults with
    | fault :: rest => (.error (fault.failure r.table), { b with appendFaults := rest })
    | [] => b.store permit r
  get t position b := b.reading .get ((b.memory.row? t position).bind b.shown)
  scan t b := b.reading .scan (b.rows t)
  tail t b := b.reading .tail (b.rows t).getLast?
  positionsByLink t link b :=
    let extra := b.extraLinks.filterMap fun (u, l, p) => if u = t ∧ l = link then some p else none
    b.reading .positionsByLink (b.memory.positions t link ++ extra)

end Bench

end TradeLedger.Drill

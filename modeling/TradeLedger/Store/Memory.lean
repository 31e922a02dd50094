/-
A store in memory. It takes a row only where its table ends, and never fails to read.
-/
import TradeLedger.Assoc
import TradeLedger.Settings
import TradeLedger.Store

namespace TradeLedger

/-- Rows of each table, and the positions of the rows with each link. -/
structure Memory where
  rows : PerTable (List Row)
  links : Assoc (Table × Uuid) (List UInt64)
  deriving DecidableEq

namespace Memory

def empty : Memory := ⟨.ofFn fun _ => [], .empty⟩

/-- How many rows a table has. -/
def size (m : Memory) (t : Table) : Nat := (m.rows.get t).length

/-- Where the rows of a table with this link are, in order. -/
def positions (m : Memory) (t : Table) (link : Uuid) : List UInt64 :=
  (m.links.get? (t, link)).getD []

/-- The row at a position counted from one. -/
def row? (m : Memory) (t : Table) (position : UInt64) : Option Row :=
  if position = 0 then none else (m.rows.get t)[position.toNat - 1]?

/-- Takes a row at the end of its table, and its position into the list of its link. -/
def push (m : Memory) (r : Row) : Memory where
  rows := m.rows.modify r.table (· ++ [r])
  links := m.links.set (r.table, r.linkId) (m.positions r.table r.linkId ++ [r.position])

/-- Appends a row under a permit for its own table, at the position after the last. A row at an
earlier position would change one that is committed. -/
def append (permit : Table) (r : Row) (m : Memory) : Except Failure Memory :=
  let next := m.size r.table + 1
  if permit ≠ r.table then
    .error (.storage s!"permit for {permit.name} used on {r.table.name} row")
  else if r.position.toNat < next then .error (.immutable r.table .update)
  else if r.position.toNat ≠ next then
    .error (.storage
      s!"{r.table.name} append at position {r.position.toNat} leaves a gap (next is {next})")
  else .ok (m.push r)

/-- The store that settings name, if they are fit. Rows are only kept in memory. -/
def ofSettings (s : Settings) : Except Failure Memory := do
  s.validate
  match s.backend with
  | .memory => return empty
  | .rocksdb =>
    throw (.configuration "rocksdb backend requested but the `rocksdb` feature is disabled")

instance : Store Memory where
  append permit r m :=
    match m.append permit r with
    | .ok m' => (.ok r, m')
    | .error f => (.error f, m)
  get t position m := (.ok (m.row? t position), m)
  scan t m := (.ok (m.rows.get t), m)
  tail t m := (.ok (m.rows.get t).getLast?, m)
  positionsByLink t link m := (.ok (m.positions t link), m)

end Memory

end TradeLedger

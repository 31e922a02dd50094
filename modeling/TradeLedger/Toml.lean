/-
TOML documents as trees of items, and the rules by which headers and dotted keys build a tree. A
table is stated once: by its header, by dotted keys, or in one piece; on the way to a header tables
come about that may still be stated.
-/
namespace TradeLedger

namespace Toml

/-- How a table came about. -/
inductive Origin where
  /-- It has a header of its own, or is the root. -/
  | header
  /-- It lies on the way to a header. -/
  | implied
  /-- It lies on the way to a value with a dotted key. -/
  | dotted
  /-- It was written in one piece. -/
  | inline
  deriving DecidableEq, Repr

end Toml

/-- A value, a table, or a list of tables that each have a header. -/
inductive Toml where
  | text (s : String)
  | integer (i : Int)
  | float
  | boolean (b : Bool)
  /-- A date, a time, or both. -/
  | moment
  | list (items : List Toml)
  | table (origin : Toml.Origin) (members : List (String × Toml))
  | tables (elements : List (List (String × Toml)))

namespace Toml

/-- The members of a table, by key. -/
abbrev Members := List (String × Toml)

/-! ## Building -/

def find? (k : String) (ms : Members) : Option Toml := (ms.find? (·.1 = k)).map (·.2)

/-- Puts an item in the place of the one with its key, or at the end. -/
def put (k : String) (v : Toml) (ms : Members) : Members := ms.filter (·.1 ≠ k) ++ [(k, v)]

/-- Changes the table at the end of a path, and makes the tables that the path lacks. Of a list of
tables the last is meant. A path of dotted keys does not enter a table with a header. -/
def change (viaDots : Bool) (f : Origin → Members → Option Members) :
    List String → Origin → Members → Option Members
  | [], origin, ms => f origin ms
  | k :: path, _, ms =>
    match find? k ms with
    | none => do
      let origin := if viaDots then .dotted else .implied
      let inner ← change viaDots f path origin []
      return put k (.table origin inner) ms
    | some (.table origin inner) =>
      if origin = .inline ∨ (viaDots ∧ origin = .header) then none
      else do
        let inner ← change viaDots f path origin inner
        return put k (.table origin inner) ms
    | some (.tables elements) =>
      match elements.getLast? with
      | some last => do
        let last ← change viaDots f path .header last
        return put k (.tables (elements.dropLast ++ [last])) ms
      | none => none
    | some _ => none

/-- Adds a value with a new key. The last table on a dotted path must be one of dotted keys. -/
def addValue (path : List String) (k : String) (v : Toml) (ms : Members) : Option Members :=
  change true
    (fun origin ms =>
      if (origin = .dotted) = (path = []) then none
      else if (find? k ms).isSome then none
      else some (ms ++ [(k, v)]))
    path .header ms

/-- States a table that was at most implied so far. -/
def addTable (path : List String) (k : String) (root : Members) : Option Members :=
  change false
    (fun _ ms =>
      match find? k ms with
      | none => some (put k (.table .header []) ms)
      | some (.table .implied inner) => some (put k (.table .header inner) ms)
      | some _ => none)
    path .header root

/-- Adds a table to a list of tables. -/
def addElement (path : List String) (k : String) (root : Members) : Option Members :=
  change false
    (fun _ ms =>
      match find? k ms with
      | none => some (put k (.tables [[]]) ms)
      | some (.tables elements) => some (put k (.tables (elements ++ [[]])) ms)
      | some _ => none)
    path .header root

end Toml

end TradeLedger

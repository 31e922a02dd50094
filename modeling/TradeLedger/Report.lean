/-
The report on every chain, table by table. It reads the rows themselves, so that a ledger too
damaged to open is reported too.
-/
import TradeLedger.Settings.Reader
import TradeLedger.Site
import TradeLedger.Store.Memory

namespace TradeLedger

/-- What the report ends with: its lines, and whether all is well or what went wrong. -/
structure Report where
  lines : List String
  failure : Option Failure
  /-- Whether any chain is broken. -/
  broken : Bool

namespace Report

/-- A name with blanks behind it up to a column. -/
def column (name : String) : String :=
  name ++ String.ofList (List.replicate (18 - name.length) ' ')

/-- The line on one chain. -/
def line : Chain.Verification → String
  | .intact table tail =>
    s!"{column table.name} intact   records={tail.position} tail={tail.digest.hex}"
  | .broken b =>
    let place := s!"BROKEN   position={b.position} record={b.recordId.text} kind={b.flaw.text}"
    s!"{column b.table.name} {place} expected={b.expected.hex} actual={b.actual.hex}"

/-- One more chain, unless a table could not be read before. -/
def add {σ : Type} [Store σ] (r : Report × σ) (t : Table) : Report × σ :=
  let (r, store) := r
  if r.failure.isSome then (r, store)
  else
    match Store.scan t store with
    | (.ok rows, store) =>
      let v := Chain.verify t rows
      ({ r with lines := r.lines ++ [line v], broken := r.broken || !v.isIntact }, store)
    | (.error f, store) => ({ r with failure := some f }, store)

/-- The report on a store. -/
def ofStore {σ : Type} [Store σ] (store : σ) : Report :=
  (Table.all.foldl add (⟨[], none, false⟩, store)).1

/-- The report on the store that settings name. -/
def ofSettings (file : Option Settings.File) (env : Settings.Environment) : Report :=
  match (Settings.load file env).bind Memory.ofSettings with
  | .ok store => ofStore store
  | .error f => ⟨[], some f, false⟩

/-- What is said about a failure. -/
def complaint (r : Report) : Option String := r.failure.map fun f => s!"Error: {f.message}"

def exitCode (r : Report) : Nat := if r.failure.isSome || r.broken then 1 else 0

end Report

end TradeLedger

/-
Who calls, and what a caller's role lets it append. No role may change what is committed.
-/
import TradeLedger.Table

namespace TradeLedger

/-- What a caller is there for. -/
inductive Role where
  | ingestion
  | deliberation
  | execution
  /-- Reads only. -/
  | auditor
  deriving DecidableEq, Repr

namespace Role

def all : List Role := [.ingestion, .deliberation, .execution, .auditor]

theorem mem_all (r : Role) : r ∈ all := by cases r <;> simp [all]

def name : Role → String
  | .ingestion => "ingestion"
  | .deliberation => "deliberation"
  | .execution => "execution"
  | .auditor => "auditor"

def ofName? (s : String) : Option Role := all.find? (·.name = s)

/-- Each table has one role that appends to it. -/
def mayAppend : Role → Table → Bool
  | .ingestion, .signals => true
  | .deliberation, .deliberations => true
  | .execution, .orderExecutions | .execution, .orderEvents => true
  | _, _ => false

def mayMutate (_ : Role) : Bool := false

end Role

/-- A caller, by name and role. -/
structure Caller where
  principal : String
  role : Role
  deriving DecidableEq, Repr

end TradeLedger

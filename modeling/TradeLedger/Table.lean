/-
The four tables of the ledger, and values kept one per table.
-/
import TradeLedger.Bytes

namespace TradeLedger

/-- One of the four append-only tables. -/
inductive Table where
  /-- Inbound trade instructions. -/
  | signals
  /-- Reasoning about a signal. -/
  | deliberations
  /-- Orders sent on behalf of a signal. -/
  | orderExecutions
  /-- What became of an order. -/
  | orderEvents
  deriving DecidableEq, Repr

namespace Table

/-- Every table, in the order in which they are opened and verified. -/
def all : List Table := [.signals, .deliberations, .orderExecutions, .orderEvents]

theorem mem_all (t : Table) : t ∈ all := by cases t <;> simp [all]

/-- The name a table is stored under. -/
def name : Table → String
  | .signals => "signals"
  | .deliberations => "deliberations"
  | .orderExecutions => "order_executions"
  | .orderEvents => "order_events"

def ofName? (s : String) : Option Table := all.find? (·.name = s)

def index : Table → Nat
  | .signals => 0
  | .deliberations => 1
  | .orderExecutions => 2
  | .orderEvents => 3

@[simp] theorem ofName?_name (t : Table) : ofName? t.name = some t := by cases t <;> decide

end Table

/-! ## One value per table -/

/-- A value for each table. -/
@[ext] structure PerTable (α : Type) where
  signals : α
  deliberations : α
  orderExecutions : α
  orderEvents : α
  deriving DecidableEq, Repr

namespace PerTable

variable {α : Type}

def ofFn (f : Table → α) : PerTable α :=
  ⟨f .signals, f .deliberations, f .orderExecutions, f .orderEvents⟩

def get (p : PerTable α) : Table → α
  | .signals => p.signals
  | .deliberations => p.deliberations
  | .orderExecutions => p.orderExecutions
  | .orderEvents => p.orderEvents

def set (p : PerTable α) (t : Table) (a : α) : PerTable α :=
  match t with
  | .signals => { p with signals := a }
  | .deliberations => { p with deliberations := a }
  | .orderExecutions => { p with orderExecutions := a }
  | .orderEvents => { p with orderEvents := a }

def modify (p : PerTable α) (t : Table) (f : α → α) : PerTable α := p.set t (f (p.get t))

@[simp] theorem get_ofFn (f : Table → α) (t : Table) : (ofFn f).get t = f t := by cases t <;> rfl

@[simp] theorem get_set_self (p : PerTable α) (t : Table) (a : α) : (p.set t a).get t = a := by
  cases t <;> rfl

theorem get_set_ne (p : PerTable α) {t u : Table} (a : α) (h : u ≠ t) :
    (p.set t a).get u = p.get u := by
  cases t <;> cases u <;> simp_all [get, set]

@[simp] theorem set_get (p : PerTable α) (t : Table) : p.set t (p.get t) = p := by cases t <;> rfl

theorem ext_get {p q : PerTable α} (h : ∀ t, p.get t = q.get t) : p = q := by
  ext
  · exact h .signals
  · exact h .deliberations
  · exact h .orderExecutions
  · exact h .orderEvents

end PerTable

end TradeLedger

/-
Counters of what the ledger did. A counter has a sample for each label that was counted, and none
for others.
-/
import TradeLedger.Assoc
import TradeLedger.Failure

namespace TradeLedger

/-! ## Tallies -/

/-- How often each thing was counted, in the order in which they first were. -/
abbrev Tally (α : Type) := Assoc α Nat

namespace Tally

variable {α : Type} [DecidableEq α]

/-- How often a thing was counted. -/
def count (t : Tally α) (a : α) : Nat := (t.get? a).getD 0

/-- Counts one more. -/
def add (t : Tally α) (a : α) : Tally α := t.set a (count t a + 1)

@[simp] theorem count_empty (a : α) : count (Assoc.empty : Tally α) a = 0 := rfl

/-- Counting a thing changes its own count only, by one. -/
theorem count_add (t : Tally α) (a b : α) :
    count (add t a) b = count t b + if a = b then 1 else 0 := by
  unfold add
  rw [count, Assoc.get?_set]
  by_cases h : b = a
  · subst h; simp
  · simp [h, Ne.symm h, count]

end Tally

/-! ## Counters -/

/-- The counters of one ledger. -/
structure Metrics where
  appends : Tally Table
  rejections : Tally Label
  /-- Waits for a table that were given up. -/
  contention : Tally Table
  retries : Tally Table
  chainBreaks : Tally Table
  /-- How many appends were timed. -/
  timed : Nat
  deriving DecidableEq, Repr

namespace Metrics

def empty : Metrics := ⟨.empty, .empty, .empty, .empty, .empty, 0⟩

def append (m : Metrics) (t : Table) : Metrics :=
  { m with appends := m.appends.add t, timed := m.timed + 1 }

def rejection (m : Metrics) (l : Label) : Metrics := { m with rejections := m.rejections.add l }

def contended (m : Metrics) (t : Table) : Metrics := { m with contention := m.contention.add t }

def retry (m : Metrics) (t : Table) : Metrics := { m with retries := m.retries.add t }

def chainBreak (m : Metrics) (t : Table) : Metrics := { m with chainBreaks := m.chainBreaks.add t }

/-- The samples of every family that has any. Appends are timed without a label. -/
def families (m : Metrics) : List (String × List (String × Nat)) :=
  let tables (t : Tally Table) := t.entries.map fun e => (e.1.name, e.2)
  [("audit_ledger_appends_total", tables m.appends),
    ("audit_ledger_rejections_total", m.rejections.entries.map fun e => (e.1.text, e.2)),
    ("audit_ledger_contention_total", tables m.contention),
    ("audit_ledger_retries_total", tables m.retries),
    ("audit_ledger_chain_breaks_total", tables m.chainBreaks),
    ("audit_ledger_append_duration_seconds", [("", m.timed)])].filter (!·.2.isEmpty)

end Metrics

end TradeLedger

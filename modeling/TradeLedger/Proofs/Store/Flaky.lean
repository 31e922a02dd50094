/-
A store in memory whose appends may fail. A failed append stores nothing; reads never fail and
change nothing.
-/
import Mathlib.Tactic
import TradeLedger.Store.Memory

namespace TradeLedger

/-- Rows in memory, and what becomes of the next appends: each fails, or is let through. -/
structure Flaky where
  memory : Memory
  faults : List (Option Failure)

namespace Flaky

/-- Appends a row that is let through. -/
def push (s : Flaky) (permit : Table) (r : Row) (faults : List (Option Failure)) : Except Failure Row × Flaky :=
  match s.memory.append permit r with
  | .ok memory => (.ok r, ⟨memory, faults⟩)
  | .error f => (.error f, ⟨s.memory, faults⟩)

def append (permit : Table) (r : Row) (s : Flaky) : Except Failure Row × Flaky :=
  match s.faults with
  | some f :: rest => (.error f, { s with faults := rest })
  | none :: rest => s.push permit r rest
  | [] => s.push permit r []

instance : Store Flaky where
  append := append
  get t position s := (.ok (s.memory.row? t position), s)
  scan t s := (.ok (s.memory.rows.get t), s)
  tail t s := (.ok (s.memory.rows.get t).getLast?, s)
  positionsByLink t link s := (.ok (s.memory.positions t link), s)

end Flaky

namespace Memory

/-- A row is taken only under a permit for its own table, and only behind the last row. -/
theorem append_eq_ok {m m' : Memory} {permit : Table} {r : Row} (h : m.append permit r = .ok m') :
    permit = r.table ∧ r.position.toNat = (m.rows.get r.table).length + 1 ∧ m' = m.push r := by
  unfold append size at h
  simp only at h
  split_ifs at h with h1 h2 h3
  cases h
  exact ⟨not_not.1 h1, not_not.1 h3, rfl⟩

/-- The row behind the last one is taken. -/
theorem append_of_next {m : Memory} {r : Row} (h : r.position.toNat = (m.rows.get r.table).length + 1) :
    m.append r.table r = .ok (m.push r) := by
  unfold append size
  simp [h]

/-- Memory has its own causes for not taking a row. -/
theorem append_eq_error {m : Memory} {permit : Table} {r : Row} {f : Failure} (h : m.append permit r = .error f)
    (key : String) : f ≠ .duplicateSignal key := by
  unfold append at h
  simp only at h
  rintro rfl
  split_ifs at h <;> cases h

theorem rows_push (m : Memory) (r : Row) (t : Table) :
    (m.push r).rows.get t = if t = r.table then m.rows.get t ++ [r] else m.rows.get t := by
  rw [push, PerTable.modify]
  split
  · subst_vars; rw [PerTable.get_set_self]
  · rw [PerTable.get_set_ne _ _ ‹_›]

theorem rows_prefix_push (m : Memory) (r : Row) (t : Table) : m.rows.get t <+: (m.push r).rows.get t := by
  rw [rows_push]
  split
  · exact List.prefix_append _ _
  · exact List.prefix_refl _

end Memory

namespace Flaky

theorem push_cases (permit : Table) (r : Row) (s : Flaky) (faults : List (Option Failure)) :
    (s.push permit r faults = (.ok r, ⟨s.memory.push r, faults⟩) ∧ permit = r.table ∧
      r.position.toNat = (s.memory.rows.get r.table).length + 1) ∨
    (∃ f, s.push permit r faults = (.error f, ⟨s.memory, faults⟩) ∧ ∀ key, f ≠ .duplicateSignal key) := by
  rw [push]
  cases h : s.memory.append permit r with
  | ok m =>
    obtain ⟨hpermit, hposition, rfl⟩ := Memory.append_eq_ok h
    exact .inl ⟨rfl, hpermit, hposition⟩
  | error f => exact .inr ⟨f, rfl, Memory.append_eq_error h⟩

/-- An append that is not made to fail stores the row that is next. -/
theorem append_of_next {s : Flaky} {r : Row} (hfaults : ∀ f, s.faults.head? ≠ some (some f))
    (h : r.position.toNat = (s.memory.rows.get r.table).length + 1) :
    Store.append r.table r s = (.ok r, (⟨s.memory.push r, s.faults.tail⟩ : Flaky)) := by
  show s.append r.table r = _
  unfold append
  split
  · rename_i f rest hs
    exact absurd (by rw [hs]; rfl) (hfaults f)
  · rename_i rest hs
    rw [push, Memory.append_of_next h, hs]
    rfl
  · rename_i hs
    rw [push, Memory.append_of_next h, hs]
    rfl

/-- An append stores the row behind the last of its table, or fails and stores nothing. It does not
speak of duplicates, unless that is how it is to fail. -/
theorem append_cases (permit : Table) (r : Row) (s : Flaky) :
    (Store.append permit r s = (.ok r, (⟨s.memory.push r, s.faults.tail⟩ : Flaky)) ∧ permit = r.table ∧
      r.position.toNat = (s.memory.rows.get r.table).length + 1) ∨
    (∃ f, Store.append permit r s = (.error f, (⟨s.memory, s.faults.tail⟩ : Flaky)) ∧
      (some f ∈ s.faults ∨ ∀ key, f ≠ .duplicateSignal key)) := by
  have hpush (faults : List (Option Failure)) := push_cases permit r s faults
  show (s.append permit r = _ ∧ _) ∨ (∃ f, s.append permit r = _ ∧ _)
  unfold append
  split
  · rename_i f rest hs
    exact .inr ⟨f, by rw [hs]; rfl, .inl (by rw [hs]; exact List.mem_cons_self)⟩
  · rename_i rest hs
    rw [hs]
    exact (hpush rest).imp_right fun ⟨f, hf, hne⟩ => ⟨f, hf, .inr hne⟩
  · rename_i hs
    rw [hs]
    exact (hpush []).imp_right fun ⟨f, hf, hne⟩ => ⟨f, hf, .inr hne⟩

end Flaky

end TradeLedger

/-
What verification establishes, said without the run that does the checking: `Follows` lists what
holds of a row behind a given end of a chain, and `Linked` says that rows, one behind the other,
lead from the start of a table to an end. Rows verify exactly if they are linked, and then the end
that is reported is where they lead.
-/
import Mathlib.Tactic
import TradeLedger.Chain.Verification

namespace TradeLedger.Chain

/-! ## One row -/

/-- The row `r`, whose content reads as `e`, follows the end `before` of the chain of `t`. -/
structure Follows (t : Table) (before : Tail) (r : Row) (e : Envelope) : Prop where
  table : r.table = t
  position : r.position.toNat = before.position + 1
  digest : link before.digest r.content = r.digest
  content : Envelope.decode r.content = .ok e
  contentTable : e.table = t
  contentPosition : e.position.toNat = before.position + 1
  recordId : e.recordId = r.recordId
  linkId : e.linkId = r.linkId
  time : before.createdAt ≤ e.createdAt

/-- The end of the chain behind a row. -/
def Tail.after (before : Tail) (r : Row) (e : Envelope) : Tail :=
  ⟨before.position + 1, r.digest, e.createdAt⟩

theorem follow_of_follows {t : Table} {before : Tail} {r : Row} {e : Envelope}
    (h : Follows t before r e) : follow t before r = .ok (before.after r e) := by
  have ht : ¬ e.createdAt < before.createdAt := by
    have := h.time
    rw [Int64.lt_iff_toInt_lt]
    rw [Int64.le_iff_toInt_le] at this
    omega
  simp [follow, h.table, h.position, h.digest, h.content, h.contentTable, h.contentPosition, h.recordId,
    h.linkId, ht, pure, Except.pure, Tail.after]

theorem follows_of_follow {t : Table} {before after : Tail} {r : Row} (h : follow t before r = .ok after) :
    ∃ e, Follows t before r e ∧ after = before.after r e := by
  unfold follow at h
  simp only [bind, Except.bind, pure, Except.pure, throw, throwThe, MonadExceptOf.throw] at h
  split_ifs at h with h1 h2
  cases hc : Envelope.decode r.content with
  | error d => rw [hc] at h; cases h
  | ok e =>
    rw [hc] at h
    simp only at h
    split_ifs at h with h3 h4 h5
    cases h
    push Not at h1 h2 h3 h4
    refine ⟨e, ⟨h1.1, h1.2, h2, hc, h3.1, h3.2, h4.1, h4.2, ?_⟩, rfl⟩
    rw [Int64.lt_iff_toInt_lt] at h5
    rw [Int64.le_iff_toInt_le]
    omega

/-! ## All rows -/

/-- These rows lead from the start of the chain of `t` to this end. -/
inductive Linked (t : Table) : List Row → Tail → Prop where
  | nil : Linked t [] (.empty t)
  | snoc {rows : List Row} {before : Tail} {r : Row} {e : Envelope} :
      Linked t rows before → Follows t before r e → Linked t (rows ++ [r]) (before.after r e)

theorem verifyFrom_append (t : Table) (before : Tail) (xs ys : List Row) :
    verifyFrom t before (xs ++ ys) =
      match verifyFrom t before xs with
      | .intact _ mid => verifyFrom t mid ys
      | .broken b => .broken b := by
  induction xs generalizing before with
  | nil => rfl
  | cons x xs ih =>
    simp only [List.cons_append, verifyFrom]
    cases follow t before x with
    | ok after => exact ih after
    | error flaw => rfl

theorem verifyFrom_table {t u : Table} {before after : Tail} {rows : List Row}
    (h : verifyFrom t before rows = .intact u after) : u = t := by
  induction rows generalizing before with
  | nil => cases h; rfl
  | cons r rest ih =>
    simp only [verifyFrom] at h
    split at h
    · exact ih h
    · cases h

theorem Linked.verify {t : Table} {rows : List Row} {tail : Tail} (h : Linked t rows tail) :
    Chain.verify t rows = .intact t tail := by
  -- a chain grows at its end and is verified from its start
  induction h with
  | nil => rfl
  | snoc _ hr ih =>
    unfold Chain.verify at ih ⊢
    rw [verifyFrom_append, ih]
    simp only [verifyFrom, follow_of_follows hr]

theorem linked_of_verify {t u : Table} {rows : List Row} {tail : Tail}
    (h : verify t rows = .intact u tail) : Linked t rows tail := by
  induction rows using List.reverseRecOn generalizing u tail with
  | nil => cases h; exact .nil
  | append_singleton rows r ih =>
    unfold verify at h ih
    rw [verifyFrom_append] at h
    cases hv : verifyFrom t (.empty t) rows with
    | broken b => rw [hv] at h; cases h
    | intact w mid =>
      rw [hv] at h
      simp only [verifyFrom] at h
      cases hf : follow t mid r with
      | error flaw => rw [hf] at h; cases h
      | ok after =>
        rw [hf] at h
        cases h
        obtain ⟨e, he, rfl⟩ := follows_of_follow hf
        exact .snoc (ih hv) he

/-- Rows verify exactly if they are linked. -/
theorem verify_eq_intact_iff {t u : Table} {rows : List Row} {tail : Tail} :
    verify t rows = .intact u tail ↔ u = t ∧ Linked t rows tail :=
  ⟨fun h => ⟨verifyFrom_table h, linked_of_verify h⟩, fun ⟨ht, h⟩ => ht ▸ h.verify⟩

/-! ## What linked rows say -/

namespace Linked

variable {t : Table} {rows : List Row} {tail : Tail}

theorem position_eq (h : Linked t rows tail) : tail.position = rows.length := by
  induction h with
  | nil => rfl
  | snoc _ _ ih => simp [Tail.after, ih]

/-- The end of a chain is what its last row says, or the start of the table. -/
theorem tail_eq (h : Linked t rows tail) :
    (rows = [] ∧ tail = .empty t) ∨
      ∃ r e, rows.getLast? = some r ∧ Envelope.decode r.content = .ok e ∧
        r.position.toNat = rows.length ∧ e.table = t ∧ e.position = r.position ∧
        tail = ⟨rows.length, r.digest, e.createdAt⟩ := by
  cases h with
  | nil => exact .inl ⟨rfl, rfl⟩
  | snoc h hr =>
    rename_i before r e
    have hp := h.position_eq
    refine .inr ⟨r, e, by simp, hr.content, ?_, hr.contentTable, ?_, ?_⟩
    · rw [hr.position, hp]; simp
    · exact UInt64.toNat_inj.1 (by rw [hr.contentPosition, hr.position])
    · simp [Tail.after, hp]

/-- Every row names its table and reads as an envelope of that table. -/
theorem decodes (h : Linked t rows tail) :
    ∀ r ∈ rows, r.table = t ∧ ∃ e, Envelope.decode r.content = .ok e ∧ e.table = t ∧
      e.position = r.position ∧ e.recordId = r.recordId ∧ e.linkId = r.linkId := by
  induction h with
  | nil => intro r hr; cases hr
  | snoc _ hf ih =>
    intro r hr
    rcases List.mem_append.1 hr with hr | hr
    · exact ih r hr
    · cases List.mem_singleton.1 hr
      refine ⟨hf.table, _, hf.content, hf.contentTable, ?_, hf.recordId, hf.linkId⟩
      exact UInt64.toNat_inj.1 (by rw [hf.contentPosition, hf.position])

end Linked

end TradeLedger.Chain

/-
What each operation of the index does to the standing of a dedupe key and of an identifier, when a
reservation is refused, and that one which is given back leaves no trace.
-/
import Mathlib.Tactic
import TradeLedger.Index

namespace TradeLedger

/-! ## Keys that come and go -/

namespace Assoc

variable {κ α : Type} [DecidableEq κ]

theorem filter_put {k : κ} {es : List (κ × α)} (h : find k es = none) (a : α) :
    (put k a es).filter (·.1 ≠ k) = es := by
  induction es with
  | nil => simp [put]
  | cons e rest ih =>
    obtain ⟨l, b⟩ := e
    unfold find at h
    split_ifs at h with hl
    rw [put, if_neg hl, List.filter_cons_of_pos (by simpa using Ne.symm hl), ih h]

/-- A new key that is taken out again leaves no trace. -/
theorem erase_set {m : Assoc κ α} {k : κ} (h : m.get? k = none) (a : α) : (m.set k a).erase k = m := by
  rw [erase, set, filter_put h]

end Assoc

namespace Index

variable {x y : Index} {key k : String} {id i : Uuid} {draws : List Uuid} {res : Reservation}

/-! ## Reservations -/

/-- The identifier that is held is one of those drawn, and was free. -/
theorem reserveFirst_eq_some (h : x.reserveFirst draws = some (id, y)) :
    id ∈ draws ∧ x.correlations.get? id = none ∧ y = { x with correlations := x.correlations.set id .held } := by
  induction draws with
  | nil => cases h
  | cons d draws ih =>
    unfold reserveFirst reserve at h
    by_cases hd : x.correlations.contains d = true
    · rw [if_pos hd] at h
      obtain ⟨hmem, hfree, hy⟩ := ih h
      exact ⟨List.mem_cons_of_mem _ hmem, hfree, hy⟩
    · rw [if_neg hd] at h
      cases h
      refine ⟨List.mem_cons_self, ?_, rfl⟩
      simpa [Assoc.contains] using hd

theorem reserveFirst_eq_none (h : x.reserveFirst draws = none) : ∀ d ∈ draws, (x.correlations.get? d).isSome := by
  induction draws with
  | nil => intro d hd; cases hd
  | cons e draws ih =>
    unfold reserveFirst reserve at h
    by_cases he : x.correlations.contains e = true
    · rw [if_pos he] at h
      intro d hd
      rcases List.mem_cons.1 hd with rfl | hd
      · exact he
      · exact ih h d hd
    · rw [if_neg he] at h
      cases h

/-- What a reservation takes was free. -/
theorem reserveSignal_eq_ok (h : x.reserveSignal key draws = .ok (res, y)) :
    res.dedupeKey = key ∧ res.correlationId ∈ draws ∧ x.dedupeKeys.get? key = none ∧
      x.correlations.get? res.correlationId = none ∧
      y = { x with
        correlations := x.correlations.set res.correlationId .held
        dedupeKeys := x.dedupeKeys.set key .held } := by
  unfold reserveSignal at h
  split at h
  · cases h
  · rename_i hkey
    split at h
    · rename_i id y hfirst
      cases h
      obtain ⟨hmem, hfree, hy⟩ := reserveFirst_eq_some hfirst
      exact ⟨rfl, hmem, by simpa [Assoc.contains] using hkey, hfree, hy⟩
    · cases h

/-- A dedupe key is refused as a duplicate exactly if something stands under it. -/
theorem reserveSignal_duplicate_iff :
    x.reserveSignal key draws = .error (.duplicateSignal key) ↔ (x.dedupeKeys.get? key).isSome := by
  unfold reserveSignal
  rw [Assoc.contains]
  split
  · simp [*]
  · split <;> simp [*]

/-- A reservation is refused for its key, or because every identifier drawn is taken. -/
theorem reserveSignal_eq_error {f : Failure} (h : x.reserveSignal key draws = .error f) :
    (f = .duplicateSignal key ∧ (x.dedupeKeys.get? key).isSome) ∨
      (f = .identifiersTaken ∧ x.dedupeKeys.get? key = none ∧ ∀ d ∈ draws, (x.correlations.get? d).isSome) := by
  unfold reserveSignal at h
  split at h
  · rename_i hkey
    cases h
    exact .inl ⟨rfl, hkey⟩
  · rename_i hkey
    split at h
    · cases h
    · rename_i hfirst
      cases h
      exact .inr ⟨rfl, by simpa [Assoc.contains] using hkey, fun d hd => reserveFirst_eq_none hfirst d hd⟩

/-! ## Giving back -/

/-- The index once this is reserved. -/
def hold (x : Index) (res : Reservation) : Index :=
  { x with
    correlations := x.correlations.set res.correlationId .held
    dedupeKeys := x.dedupeKeys.set res.dedupeKey .held }

/-- A reservation that is given back leaves no trace. -/
theorem release_hold (hkey : x.dedupeKeys.get? res.dedupeKey = none) (hid : x.correlations.get? res.correlationId = none) :
    (x.hold res).release res = x := by
  have hheld : (x.hold res).dedupeKeys.get? res.dedupeKey = some .held :=
    (Assoc.get?_set ..).trans (if_pos rfl)
  have hheld' : (x.hold res).correlations.get? res.correlationId = some .held :=
    (Assoc.get?_set ..).trans (if_pos rfl)
  rw [release, if_pos hheld, if_pos hheld', hold, Assoc.erase_set hkey, Assoc.erase_set hid]

/-! ## Standing -/

@[simp] theorem dedupeKeys_restore :
    (x.restore key id).dedupeKeys.get? k = if k = key then some (.committed id) else x.dedupeKeys.get? k :=
  Assoc.get?_set ..

@[simp] theorem correlations_restore :
    (x.restore key id).correlations.get? i = if i = id then some .committed else x.correlations.get? i :=
  Assoc.get?_set ..

theorem dedupeKeys_release :
    (x.release res).dedupeKeys.get? k =
      if k = res.dedupeKey ∧ x.dedupeKeys.get? k = some .held then none else x.dedupeKeys.get? k := by
  unfold release
  by_cases hk : k = res.dedupeKey
  · subst hk
    by_cases hheld : x.dedupeKeys.get? res.dedupeKey = some .held <;> simp [hheld, Assoc.get?_erase]
  · by_cases hheld : x.dedupeKeys.get? res.dedupeKey = some .held <;> simp [hheld, hk, Assoc.get?_erase]

theorem correlations_release :
    (x.release res).correlations.get? i =
      if i = res.correlationId ∧ x.correlations.get? i = some .held then none else x.correlations.get? i := by
  unfold release
  by_cases hi : i = res.correlationId
  · subst hi
    by_cases hheld : x.correlations.get? res.correlationId = some .held <;> simp [hheld, Assoc.get?_erase]
  · by_cases hheld : x.correlations.get? res.correlationId = some .held <;> simp [hheld, hi, Assoc.get?_erase]

@[simp] theorem dedupeKeys_registerExecution : (x.registerExecution id).dedupeKeys = x.dedupeKeys := by
  unfold registerExecution; split <;> rfl

@[simp] theorem correlations_registerExecution : (x.registerExecution id).correlations = x.correlations := by
  unfold registerExecution; split <;> rfl

theorem hasExecution_registerExecution :
    (x.registerExecution id).hasExecution i = true ↔ x.hasExecution i = true ∨ id = i := by
  unfold registerExecution hasExecution
  split_ifs with h
  · refine ⟨.inl, ?_⟩
    rintro (hi | rfl)
    · exact hi
    · exact h
  · rw [List.contains_iff_mem, List.contains_iff_mem, List.mem_append, List.mem_singleton]
    exact or_congr_right eq_comm

theorem lookup_eq_some_iff : x.lookup key = some id ↔ x.dedupeKeys.get? key = some (.committed id) := by
  unfold lookup
  split <;> simp_all

end Index

end TradeLedger

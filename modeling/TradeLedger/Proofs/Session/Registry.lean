/-
Names that are held, and names that are known. Each name is held by one owner at most; an owner takes
a name that stands for nothing, writes a fact under it, and then makes it known or, if nothing was
written, gives it back. `Registry` ties the three together, the standing of every name, what each
owner holds, and what was written, and is kept by each of these moves.

It is used for the dedupe keys of signals and for their identifiers, which stand in two maps and
move at the same moments.
-/
import Mathlib.Tactic

namespace TradeLedger

/-- The standing `get` of names agrees with what owners hold and with what was written. An owner
holds a name and may have written under it. -/
structure Registry {κ α : Type} (held : α) (get : κ → Option α) (own : ℕ → Option (κ × Bool))
    (written : List (κ × α)) : Prop where
  apart : ∀ i j k b b', own i = some (k, b) → own j = some (k, b') → i = j
  held_iff : ∀ k, get k = some held ↔ ∃ i b, own i = some (k, b)
  known_iff : ∀ k a, a ≠ held → (get k = some a ↔ (k, a) ∈ written ∧ ∀ i b, own i ≠ some (k, b))
  wrote : ∀ i k, own i = some (k, true) → ∃ a, (k, a) ∈ written
  unwritten : ∀ i k, own i = some (k, false) → ∀ a, (k, a) ∉ written
  nodup : (written.map Prod.fst).Nodup
  proper : ∀ k, (k, held) ∉ written

namespace Registry

variable {κ α : Type} {held : α} {get : κ → Option α} {own : ℕ → Option (κ × Bool)} {written : List (κ × α)}
variable {i : ℕ} {k : κ} {a : α}

/-- A name that was written under is known, or held by whoever wrote. -/
theorem standing (h : Registry held get own written) (hk : (k, a) ∈ written) :
    (get k = some a ∧ ∀ i b, own i ≠ some (k, b)) ∨
      (get k = some held ∧ ∃ i, own i = some (k, true) ∧ ∀ j b, own j = some (k, b) → j = i) := by
  by_cases ho : ∃ i b, own i = some (k, b)
  · obtain ⟨i, b, hi⟩ := ho
    cases b with
    | false => exact absurd hk (h.unwritten i k hi a)
    | true => exact .inr ⟨(h.held_iff k).2 ⟨i, true, hi⟩, i, hi, fun j b hj => h.apart j i k b true hj hi⟩
  · push Not at ho
    have hne : a ≠ held := by rintro rfl; exact h.proper k hk
    exact .inl ⟨(h.known_iff k a hne).2 ⟨hk, ho⟩, ho⟩

/-- What was written under one name is one. -/
theorem written_unique (h : Registry held get own written) {b : α} (ha : (k, a) ∈ written) (hb : (k, b) ∈ written) :
    a = b := by
  have := List.inj_on_of_nodup_map h.nodup ha hb rfl
  exact congrArg Prod.snd this

/-- A name that stands for nothing was never written under. -/
theorem not_mem_of_get_eq_none (h : Registry held get own written) (hk : get k = none) (a : α) : (k, a) ∉ written := by
  intro ha
  rcases h.standing ha with ⟨hg, -⟩ | ⟨hg, -⟩ <;> rw [hk] at hg <;> cases hg

theorem not_own_of_get_eq_none (h : Registry held get own written) (hk : get k = none) (j : ℕ) (b : Bool) :
    own j ≠ some (k, b) := by
  intro hj
  have := (h.held_iff k).2 ⟨j, b, hj⟩
  rw [hk] at this
  cases this

/-- A name stands for nothing exactly if nothing was written under it and nobody holds it. -/
theorem get_eq_none_iff (h : Registry held get own written) (k : κ) :
    get k = none ↔ (∀ a, (k, a) ∉ written) ∧ ∀ i b, own i ≠ some (k, b) := by
  constructor
  · intro hk
    exact ⟨h.not_mem_of_get_eq_none hk, h.not_own_of_get_eq_none hk⟩
  · rintro ⟨hwritten, hown⟩
    rw [Option.eq_none_iff_forall_ne_some]
    intro a ha
    by_cases hheld : a = held
    · obtain ⟨i, b, hi⟩ := (h.held_iff k).1 (hheld ▸ ha)
      exact hown i b hi
    · exact hwritten a ((h.known_iff k a hheld).1 ha).1

/-! ## Moves -/

section Moves

variable {get' : κ → Option α} {own' : ℕ → Option (κ × Bool)}

/-- What is held after an owner that holds at most this name has it in another way. -/
theorem own_set {b' : Bool} (hself : ∀ l b, own i = some (l, b) → l = k) (hothers : ∀ j b, own j = some (k, b) → j = i)
    (hown : ∀ j, own' j = if j = i then some (k, b') else own j) (j : ℕ) (l : κ) (b : Bool) :
    own' j = some (l, b) ↔ (own j = some (l, b) ∧ l ≠ k) ∨ (j = i ∧ l = k ∧ b = b') := by
  rw [hown]
  split_ifs with hj
  · subst hj
    rw [Option.some.injEq, Prod.mk.injEq]
    constructor
    · rintro ⟨rfl, rfl⟩
      exact .inr ⟨rfl, rfl, rfl⟩
    · rintro (⟨ho, hl⟩ | ⟨-, rfl, rfl⟩)
      · exact absurd (hself l b ho) hl
      · exact ⟨rfl, rfl⟩
  · refine ⟨fun ho => .inl ⟨ho, ?_⟩, ?_⟩
    · rintro rfl
      exact hj (hothers j b ho)
    · rintro (⟨ho, -⟩ | ⟨hj', -⟩)
      · exact ho
      · exact absurd hj' hj

/-- An owner of nothing takes a name that stands for nothing. -/
theorem take [DecidableEq κ] (h : Registry held get own written) (hi : own i = none) (hk : get k = none)
    (hget : ∀ l, get' l = if l = k then some held else get l)
    (hown : ∀ j, own' j = if j = i then some (k, false) else own j) : Registry held get' own' written := by
  have htake := own_set (fun l b hl => by rw [hi] at hl; cases hl)
    (fun j b hj => absurd hj (h.not_own_of_get_eq_none hk j b)) hown
  refine ⟨?_, ?_, ?_, ?_, ?_, h.nodup, h.proper⟩
  · intro j j' l b b' hj hj'
    rcases (htake _ _ _).1 hj with ⟨hj, hl⟩ | ⟨rfl, rfl, -⟩ <;>
      rcases (htake _ _ _).1 hj' with ⟨hj', hl'⟩ | ⟨rfl, hl', -⟩
    · exact h.apart j j' l b b' hj hj'
    · exact absurd hl' hl
    · exact absurd rfl hl'
    · rfl
  · intro l
    rw [hget]
    split_ifs with hl
    · exact ⟨fun _ => ⟨i, false, (htake _ _ _).2 (.inr ⟨rfl, hl, rfl⟩)⟩, fun _ => rfl⟩
    · simp [htake, hl, h.held_iff]
  · intro l a ha
    rw [hget]
    split_ifs with hl
    · subst hl
      exact ⟨fun he => absurd (Option.some.inj he).symm ha, fun hw => absurd hw.1 (h.not_mem_of_get_eq_none hk a)⟩
    · simp [htake, hl, h.known_iff l a ha]
  · intro j l hj
    rcases (htake _ _ _).1 hj with ⟨hj, -⟩ | ⟨-, -, hb⟩
    · exact h.wrote j l hj
    · cases hb
  · intro j l hj
    rcases (htake _ _ _).1 hj with ⟨hj, -⟩ | ⟨-, rfl, -⟩
    · exact h.unwritten j l hj
    · exact h.not_mem_of_get_eq_none hk

/-- What is held after the owner of a name wrote under it. -/
theorem own_write (h : Registry held get own written) (hi : own i = some (k, false))
    (hown : ∀ j, own' j = if j = i then some (k, true) else own j) (j : ℕ) (l : κ) (b : Bool) :
    own' j = some (l, b) ↔ (own j = some (l, b) ∧ l ≠ k) ∨ (j = i ∧ l = k ∧ b = true) := by
  refine own_set (fun l b hl => ?_) (fun j b hj => h.apart j i k b false hj hi) hown j l b
  rw [hi] at hl
  cases hl
  rfl

/-- To write under a name changes nothing about who holds which. -/
theorem holds_write (h : Registry held get own written) (hi : own i = some (k, false))
    (hown : ∀ j, own' j = if j = i then some (k, true) else own j) (l : κ) :
    (∃ j b, own' j = some (l, b)) ↔ ∃ j b, own j = some (l, b) := by
  have hwrite := h.own_write hi hown
  constructor
  · rintro ⟨j, b, hj⟩
    rcases (hwrite j l b).1 hj with ⟨hj, -⟩ | ⟨-, rfl, -⟩
    · exact ⟨j, b, hj⟩
    · exact ⟨i, false, hi⟩
  · rintro ⟨j, b, hj⟩
    by_cases hl : l = k
    · exact ⟨i, true, (hwrite i l true).2 (.inr ⟨rfl, hl, rfl⟩)⟩
    · exact ⟨j, b, (hwrite j l b).2 (.inl ⟨hj, hl⟩)⟩

/-- The owner of a name writes under it, for the first time. -/
theorem write (h : Registry held get own written) (hi : own i = some (k, false)) (ha : a ≠ held)
    (hown : ∀ j, own' j = if j = i then some (k, true) else own j) :
    Registry held get own' (written ++ [(k, a)]) := by
  have hwrite := h.own_write hi hown
  have hholds := h.holds_write hi hown
  refine ⟨?_, ?_, ?_, ?_, ?_, ?_, ?_⟩
  · intro j j' l b b' hj hj'
    rcases (hwrite _ _ _).1 hj with ⟨hj, hl⟩ | ⟨rfl, rfl, -⟩ <;>
      rcases (hwrite _ _ _).1 hj' with ⟨hj', hl'⟩ | ⟨rfl, hl', -⟩
    · exact h.apart j j' l b b' hj hj'
    · exact absurd hl' hl
    · exact absurd rfl hl'
    · rfl
  · intro l
    rw [h.held_iff, hholds]
  · intro l a' ha'
    have hfree : (∀ j b, own' j ≠ some (l, b)) ↔ ∀ j b, own j ≠ some (l, b) := by simpa using not_congr (hholds l)
    rw [h.known_iff l a' ha', hfree, List.mem_append, List.mem_singleton, Prod.mk.injEq]
    refine and_congr_left fun hl => ⟨.inl, ?_⟩
    -- what is new is not known yet, since its name is still held
    rintro (hw | ⟨rfl, -⟩)
    · exact hw
    · exact absurd hi (hl i false)
  · intro j l hj
    rcases (hwrite _ _ _).1 hj with ⟨hj, -⟩ | ⟨-, rfl, -⟩
    · obtain ⟨b, hb⟩ := h.wrote j l hj
      exact ⟨b, List.mem_append_left _ hb⟩
    · exact ⟨a, List.mem_append_right _ List.mem_cons_self⟩
  · intro j l hj a' hw
    rcases (hwrite _ _ _).1 hj with ⟨hj, hl⟩ | ⟨-, -, hb⟩
    · rcases List.mem_append.1 hw with hw | hw
      · exact h.unwritten j l hj a' hw
      · cases List.mem_singleton.1 hw
        exact hl rfl
    · cases hb
  · rw [List.map_append, List.map_singleton, ← List.concat_eq_append, List.nodup_concat]
    refine ⟨fun hmem => ?_, h.nodup⟩
    obtain ⟨⟨l, b⟩, hw, rfl⟩ := List.mem_map.1 hmem
    exact h.unwritten i _ hi b hw
  · intro l hw
    rcases List.mem_append.1 hw with hw | hw
    · exact h.proper l hw
    · cases List.mem_singleton.1 hw
      exact ha rfl

/-- Whoever lets go of a name held it alone. -/
theorem own_drop {b : Bool} (h : Registry held get own written) (hi : own i = some (k, b))
    (hown : ∀ j, own' j = if j = i then none else own j) (j : ℕ) (l : κ) (b' : Bool) :
    own' j = some (l, b') ↔ own j = some (l, b') ∧ l ≠ k := by
  rw [hown]
  split_ifs with hj
  · subst hj
    rw [hi]
    simp only [Option.some.injEq, Prod.mk.injEq, false_iff, not_and, not_not]
    exact fun hk => hk.1.symm
  · refine ⟨fun ho => ⟨ho, ?_⟩, fun ho => ho.1⟩
    rintro rfl
    exact hj (h.apart j i l _ _ ho hi)

/-- Whoever wrote under a name makes what was written known, and holds it no longer. -/
theorem publish [DecidableEq κ] (h : Registry held get own written) (hi : own i = some (k, true))
    (hw : (k, a) ∈ written) (hget : ∀ l, get' l = if l = k then some a else get l)
    (hown : ∀ j, own' j = if j = i then none else own j) :
    Registry held get' own' written := by
  have hdrop := h.own_drop hi hown
  have hne : a ≠ held := by rintro rfl; exact h.proper k hw
  refine ⟨fun j j' l b b' hj hj' => h.apart j j' l b b' ((hdrop _ _ _).1 hj).1 ((hdrop _ _ _).1 hj').1, ?_, ?_,
    fun j l hj => h.wrote j l ((hdrop _ _ _).1 hj).1, fun j l hj => h.unwritten j l ((hdrop _ _ _).1 hj).1,
    h.nodup, h.proper⟩
  · intro l
    rw [hget]
    split_ifs with hl
    · simp [hdrop, hl, hne]
    · simp [hdrop, hl, h.held_iff]
  · intro l a' ha'
    rw [hget]
    split_ifs with hl
    · subst hl
      simp only [Option.some.injEq, hdrop, ne_eq, not_true_eq_false, and_false, not_false_eq_true, implies_true,
        and_true]
      exact ⟨fun he => he ▸ hw, fun hw' => h.written_unique hw hw'⟩
    · simp [hdrop, hl, h.known_iff l a' ha']

/-- Whoever wrote nothing under a name gives it back. -/
theorem release [DecidableEq κ] (h : Registry held get own written) (hi : own i = some (k, false))
    (hget : ∀ l, get' l = if l = k then none else get l) (hown : ∀ j, own' j = if j = i then none else own j) :
    Registry held get' own' written := by
  have hdrop := h.own_drop hi hown
  refine ⟨fun j j' l b b' hj hj' => h.apart j j' l b b' ((hdrop _ _ _).1 hj).1 ((hdrop _ _ _).1 hj').1, ?_, ?_,
    fun j l hj => h.wrote j l ((hdrop _ _ _).1 hj).1, fun j l hj => h.unwritten j l ((hdrop _ _ _).1 hj).1,
    h.nodup, h.proper⟩
  · intro l
    rw [hget]
    split_ifs with hl
    · simp [hdrop, hl]
    · simp [hdrop, hl, h.held_iff]
  · intro l a' ha'
    rw [hget]
    split_ifs with hl
    · subst hl
      simp [hdrop, h.unwritten i l hi a']
    · simp [hdrop, hl, h.known_iff l a' ha']

/-- A name that nobody wrote under is written under and known at once, while nobody holds any. -/
theorem restore [DecidableEq κ] (h : Registry held get (fun _ => none) written) (hk : ∀ b, (k, b) ∉ written)
    (ha : a ≠ held) (hget : ∀ l, get' l = if l = k then some a else get l) :
    Registry held get' (fun _ => none) (written ++ [(k, a)]) := by
  have hnone : get k = none := by
    rw [Option.eq_none_iff_forall_ne_some]
    intro b hb
    by_cases hbh : b = held
    · subst hbh
      obtain ⟨_, _, ho⟩ := (h.held_iff k).1 hb
      cases ho
    · exact hk b ((h.known_iff k b hbh).1 hb).1
  -- to restore is to take, write and publish with nobody in between
  have htake : Registry held (fun l => if l = k then some held else get l)
      (fun j => if j = 0 then some (k, false) else none) written :=
    h.take (i := 0) rfl hnone (fun _ => rfl) fun _ => rfl
  have hwrite : Registry held (fun l => if l = k then some held else get l)
      (fun j => if j = 0 then some (k, true) else none) (written ++ [(k, a)]) :=
    htake.write (i := 0) (if_pos rfl) ha fun j => by split_ifs <;> rfl
  refine hwrite.publish (i := 0) (if_pos rfl) (List.mem_append_right _ List.mem_cons_self) (fun l => ?_) fun j => ?_
  · rw [hget]
    split_ifs <;> rfl
  · split_ifs <;> rfl

theorem empty : Registry held (fun _ : κ => none) (fun _ => none) [] where
  apart _ _ _ _ _ h := nomatch h
  held_iff k := by simp
  known_iff k a _ := by simp
  wrote _ _ h := nomatch h
  unwritten _ _ h := nomatch h
  nodup := List.nodup_nil
  proper k := List.not_mem_nil

end Moves

end Registry

end TradeLedger

/-
Texts that read as a negative zero. A number without a power of ten reads without the sign of a zero,
and multiplying it by a power of ten makes no zero of it. Dividing it may: its last digits are rounded
off, after the sign was read. So a text below zero of which no digit is left reads as a zero with its
minus sign, and no other text does.
-/
import TradeLedger.Proofs.Decimal.Text

namespace TradeLedger.Decimal

/-! ## Numbers without a power of ten -/

theorem isExponentMark_of_isDigit {x : Char} (h : x.isDigit = true) : isExponentMark x = false := by
  rw [Bool.eq_false_iff]
  intro hmark
  simp only [isExponentMark, Bool.or_eq_true, decide_eq_true_eq] at hmark
  rcases hmark with rfl | rfl <;> exact absurd h (by decide)

theorem isExponentMark_of_isSurplus {cs : List Char} (h : isSurplus cs = true) :
    ∀ x ∈ cs, isExponentMark x = false := by
  intro x hx
  have hx := List.all_eq_true.1 h x hx
  rw [Bool.or_eq_true, decide_eq_true_eq] at hx
  rcases hx with hx | rfl
  · exact isExponentMark_of_isDigit hx
  · decide

/-- Behind each character more is read, or nothing that matters is left. -/
theorem readDigits_cons {x : Char} {rest : List Char} {c k : ℕ} {point seen : Bool} {p : ℕ × ℕ}
    (h : readDigits c k point seen (x :: rest) = some p) :
    (x.isDigit = true ∨ x = '.' ∨ x = '_') ∧
      (isSurplus rest = true ∨ ∃ c k point seen, readDigits c k point seen rest = some p) := by
  rw [readDigits] at h
  by_cases hdigit : x.isDigit = true
  · rw [if_pos hdigit] at h
    refine ⟨.inl hdigit, ?_⟩
    dsimp only at h
    split at h
    · exact .inr ⟨_, _, _, _, h⟩
    · split at h
      · rename_i hsurplus
        exact .inl (Bool.and_eq_true_iff.1 hsurplus).2
      · cases h
  · rw [if_neg hdigit] at h
    split at h
    · refine ⟨.inr (.inl ‹_›), ?_⟩
      split at h
      · cases h
      · exact .inr ⟨_, _, _, _, h⟩
    · split at h
      · refine ⟨.inr (.inr ‹_›), ?_⟩
        split at h
        · cases h
        · split at h
          · split at h
            · exact .inl ‹_›
            · cases h
          · exact .inr ⟨_, _, _, _, h⟩
      · cases h

/-- What reads as digits has no exponent mark in it. -/
theorem isExponentMark_of_readDigits {cs : List Char} {c k : ℕ} {point seen : Bool} {p : ℕ × ℕ}
    (h : readDigits c k point seen cs = some p) : ∀ x ∈ cs, isExponentMark x = false := by
  induction cs generalizing c k point seen with
  | nil => simp
  | cons x rest ih =>
    obtain ⟨hx, hrest⟩ := readDigits_cons h
    refine List.forall_mem_cons.2 ⟨?_, ?_⟩
    · rcases hx with hx | rfl | rfl
      · exact isExponentMark_of_isDigit hx
      · decide
      · decide
    · rcases hrest with hrest | ⟨c, k, point, seen, hrest⟩
      · exact isExponentMark_of_isSurplus hrest
      · exact ih hrest

/-- A number without a power of ten has no exponent mark in it, and no sign on a zero. -/
theorem ofFixed?_eq_some {cs : List Char} {d : Decimal} (h : ofFixed? cs = some d) :
    d.Signed ∧ ∀ x ∈ cs, isExponentMark x = false := by
  simp only [ofFixed?, Option.bind_eq_bind, Option.bind_eq_some_iff, Option.pure_def, Option.some_inj] at h
  obtain ⟨⟨c, k⟩, hread, e, -, rfl⟩ := h
  refine ⟨e.signed_unsignedZero, ?_⟩
  have hdigits := isExponentMark_of_readDigits hread
  split at hdigits
  · exact List.forall_mem_cons.2 ⟨by decide, hdigits⟩
  · exact List.forall_mem_cons.2 ⟨by decide, hdigits⟩
  · exact hdigits

theorem ofFixed?_exponent {mantissa power : List Char} {mark : Char} (hmark : isExponentMark mark = true) :
    ofFixed? (mantissa ++ mark :: power) = none := by
  refine Option.eq_none_iff_forall_ne_some.2 fun d hd => ?_
  have hnot := (ofFixed?_eq_some hd).2 mark (by simp)
  rw [hmark] at hnot
  cases hnot

/-! ## Multiplying and dividing -/

theorem ofParts?_eq_some {negative : Bool} {c k : ℕ} {d : Decimal} (h : ofParts? negative c k = some d) :
    d.negative = negative ∧ d.coefficient = c ∧ d.scale = k := by
  rw [ofParts?] at h
  split at h
  · cases h
    exact ⟨rfl, rfl, rfl⟩
  · cases h

theorem signed_shiftUp? {d d' : Decimal} {e : ℕ} (hd : d.Signed) (h : shiftUp? d e = some d') : d'.Signed := by
  intro h0
  unfold shiftUp? at h
  split at h
  · obtain ⟨hn, hc, -⟩ := ofParts?_eq_some h
    rw [hn, hd (hc ▸ h0)]
  · split at h
    · cases h
    · obtain ⟨hn, hc, -⟩ := ofParts?_eq_some h
      rw [hc, Nat.mul_eq_zero] at h0
      rw [hn, hd (h0.resolve_right (by positivity))]

/-- What is below half of the last digit that is kept is cut to zero. -/
theorem coefficient_cut_eq_zero {d : Decimal} {places : ℕ} (h : places < d.scale) :
    (d.cut places).coefficient = 0 ↔ d.magnitude < 1 / 2 / 10 ^ places := by
  obtain ⟨k, hk⟩ : ∃ k, d.scale = places + (k + 1) := ⟨d.scale - places - 1, by omega⟩
  have hcut : (d.cut places).coefficient = (d.coefficient + 5 * 10 ^ k) / 10 ^ (k + 1) := by
    have hdropped : d.scale - places = k + 1 := by omega
    rw [cut, dif_pos h]
    simp only [hdropped, Nat.add_sub_cancel]
  have hhalf : (1 / 2 : ℚ) * 10 ^ (places + (k + 1)) = 5 * 10 ^ k * 10 ^ places := by ring
  rw [hcut, Nat.div_eq_zero_iff_lt (by positivity), magnitude, hk,
    div_lt_div_iff₀ (by positivity) (by positivity), hhalf, mul_lt_mul_iff_left₀ (by positivity)]
  calc d.coefficient + 5 * 10 ^ k < 10 ^ (k + 1) ↔ d.coefficient < 5 * 10 ^ k := by rw [pow_succ]; omega
    _ ↔ (d.coefficient : ℚ) < 5 * 10 ^ k := by exact_mod_cast Iff.rfl

theorem negative_cut (d : Decimal) (places : ℕ) : (d.cut places).negative = d.negative := by
  unfold cut
  split <;> rfl

/-- What is left after a division is a negative zero exactly if the number was below zero and less than
half of a 28th fraction digit remains of it. -/
theorem not_signed_shiftDown? {d d' : Decimal} {e : ℕ} (hd : d.Signed) (h : shiftDown? d e = some d') :
    ¬ d'.Signed ↔ d.value < 0 ∧ -d.value / 10 ^ e < 1 / 2 / 10 ^ 28 := by
  rw [Signed, Classical.not_imp, Bool.not_eq_false, and_comm, ← hd.neg_iff]
  have hvalue (hn : d.negative = true) : -d.value = d.magnitude := by rw [value, if_pos hn, neg_neg]
  unfold shiftDown? at h
  split_ifs at h with hle hlong
  · -- digits are cut off, so the number may be gone
    obtain ⟨hn, hc, -⟩ := ofParts?_eq_some h
    rw [hn, hc, negative_cut, coefficient_cut_eq_zero (by omega)]
    refine and_congr_right fun hn => ?_
    have hpow : (10 : ℚ) ^ 28 = 10 ^ (28 - e) * 10 ^ e := by rw [← pow_add]; congr 1; omega
    rw [hvalue hn, hpow, ← div_div, div_lt_div_iff_of_pos_right (by positivity)]
  · -- every digit is kept, and so is the last of a number that is not zero
    obtain ⟨hn, hc, -⟩ := ofParts?_eq_some h
    rw [hn, hc]
    refine and_congr_right fun hn => ?_
    have hne : d.coefficient ≠ 0 := fun h0 => by rw [hd h0] at hn; cases hn
    rw [hvalue hn, iff_false_left hne, not_lt]
    calc (1 / 2 / 10 ^ 28 : ℚ) ≤ 1 / 10 ^ 28 := by gcongr; norm_num
      _ ≤ 1 / 10 ^ (d.scale + e) := by gcongr <;> first | omega | norm_num
      _ ≤ d.coefficient / 10 ^ (d.scale + e) := by
        gcongr
        exact_mod_cast Nat.one_le_iff_ne_zero.2 hne
      _ = d.magnitude / 10 ^ e := by rw [magnitude, pow_add, div_div]

/-! ## Powers of ten -/

/-- Behind the mark and a minus sign stands what the number is divided by. -/
theorem ofScientific?_minus {mantissa power : List Char} {mark : Char} {m : Decimal} (hm : ofFixed? mantissa = some m)
    (hmark : isExponentMark mark = true) :
    ofScientific? (mantissa ++ mark :: '-' :: power) = (exponent? power).bind m.shiftDown? := by
  have hplain : ∀ x ∈ mantissa, (!isExponentMark x) = true := fun x hx => by
    rw [(ofFixed?_eq_some hm).2 x hx]; rfl
  simp [ofScientific?, List.takeWhile_append_of_pos hplain, List.dropWhile_append_of_pos hplain, hmark, hm]

/-- What is read with a power of ten is a number, a mark, and what the number is divided by or
multiplied by. -/
theorem ofScientific?_eq_some {cs : List Char} {d : Decimal} (h : ofScientific? cs = some d) :
    ∃ mantissa mark power m e, isExponentMark mark = true ∧ ofFixed? mantissa = some m ∧ exponent? power = some e ∧
      (cs = mantissa ++ mark :: '-' :: power ∧ m.shiftDown? e = some d ∨
        cs = mantissa ++ mark :: power ∧ m.shiftUp? e = some d) := by
  unfold ofScientific? at h
  obtain ⟨m, hm, h⟩ := Option.bind_eq_some_iff.1 h
  have hcs := @List.takeWhile_append_dropWhile _ (!isExponentMark ·) cs
  have hmark : ∀ mark rest, cs.dropWhile (!isExponentMark ·) = mark :: rest → isExponentMark mark = true := by
    intro mark rest heq
    have hfind := cs.find?_eq_head?_dropWhile_not isExponentMark
    rw [heq] at hfind
    exact List.find?_some hfind
  split at h
  · cases h
  · rename_i mark power heq
    obtain ⟨e, he, h⟩ := Option.bind_eq_some_iff.1 h
    rw [heq] at hcs
    exact ⟨_, mark, power, m, e, hmark _ _ heq, hm, he, .inl ⟨hcs.symm, h⟩⟩
  · rename_i mark power _ heq
    obtain ⟨e, he, h⟩ := Option.bind_eq_some_iff.1 h
    rw [heq] at hcs
    exact ⟨_, mark, power, m, e, hmark _ _ heq, hm, he, .inr ⟨hcs.symm, h⟩⟩

/-! ## Vanishing texts -/

/-- The text is of a number below zero and a negative power of ten, and so close to zero that less than
half of a 28th fraction digit is left. -/
def Vanishes (s : String) : Prop :=
  ∃ mantissa mark power d e, s.toList = mantissa ++ mark :: '-' :: power ∧ isExponentMark mark = true ∧
    ofFixed? mantissa = some d ∧ exponent? power = some e ∧ d.value < 0 ∧ -d.value / 10 ^ e < 1 / 2 / 10 ^ 28

/-- A text reads as a negative zero exactly if it vanishes. -/
theorem not_signed_iff_vanishes {s : String} {d : Decimal} (h : ofText? s = some d) : ¬ d.Signed ↔ Vanishes s := by
  constructor
  · intro hd
    rcases (Option.orElse_eq_some _ _ _).1 h with hfixed | ⟨-, hpower⟩
    · exact absurd (ofFixed?_eq_some hfixed).1 hd
    · obtain ⟨mantissa, mark, power, m, e, hmark, hm, he, ⟨hs, hdown⟩ | ⟨-, hup⟩⟩ := ofScientific?_eq_some hpower
      · exact ⟨mantissa, mark, power, m, e, hs, hmark, hm, he,
          (not_signed_shiftDown? (ofFixed?_eq_some hm).1 hdown).1 hd⟩
      · exact absurd (signed_shiftUp? (ofFixed?_eq_some hm).1 hup) hd
  · rintro ⟨mantissa, mark, power, m, e, hs, hmark, hm, he, hvanishes⟩
    rw [ofText?, hs, ofFixed?_exponent hmark] at h
    have h : ofScientific? (mantissa ++ mark :: '-' :: power) = some d := h
    rw [ofScientific?_minus hm hmark, he] at h
    exact (not_signed_shiftDown? (ofFixed?_eq_some hm).1 h).2 hvanishes

end TradeLedger.Decimal

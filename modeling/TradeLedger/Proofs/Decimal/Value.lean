/-
The number a decimal stands for, and what the changes of scale do to it: rounding rounds it half to
even, adding zeros keeps it. A decimal is determined by its number and its scale, but for the sign
of zero.
-/
import TradeLedger.Decimal
import TradeLedger.Proofs.Rounding

namespace TradeLedger.Decimal

/-! ## Numbers -/

/-- The number without its sign. -/
def magnitude (d : Decimal) : ℚ := d.coefficient / 10 ^ d.scale

/-- The number. -/
def value (d : Decimal) : ℚ := if d.negative then -d.magnitude else d.magnitude

/-- Zero is not negative. -/
def Signed (d : Decimal) : Prop := d.coefficient = 0 → d.negative = false

theorem magnitude_nonneg (d : Decimal) : 0 ≤ d.magnitude := by unfold magnitude; positivity

theorem abs_value (d : Decimal) : |d.value| = d.magnitude := by
  unfold value
  split_ifs
  · rw [abs_neg, abs_of_nonneg d.magnitude_nonneg]
  · rw [abs_of_nonneg d.magnitude_nonneg]

theorem magnitude_eq_zero {d : Decimal} : d.magnitude = 0 ↔ d.coefficient = 0 := by
  simp [magnitude]

theorem value_eq_zero {d : Decimal} : d.value = 0 ↔ d.coefficient = 0 := by
  rw [← abs_eq_zero, abs_value, magnitude_eq_zero]

theorem signed_iff {d : Decimal} : d.Signed ↔ (d.value = 0 → d.negative = false) := by
  rw [value_eq_zero]; rfl

/-- A bound in whole units is a bound on the coefficient. -/
theorem pow_le_magnitude_iff (d : Decimal) (n : ℕ) : 10 ^ n ≤ d.magnitude ↔ 10 ^ (n + d.scale) ≤ d.coefficient := by
  unfold magnitude
  rw [le_div_iff₀ (by positivity), ← pow_add]
  exact_mod_cast Iff.rfl

theorem Signed.neg_iff {d : Decimal} (h : d.Signed) : d.negative = true ↔ d.value < 0 := by
  have hm := d.magnitude_nonneg
  unfold value
  constructor
  · intro hn
    rw [if_pos hn, neg_lt_zero]
    refine lt_of_le_of_ne hm fun h0 => ?_
    rw [h (magnitude_eq_zero.1 h0.symm)] at hn
    cases hn
  · intro hv
    by_contra hn
    rw [if_neg hn] at hv
    linarith

/-- The number and the scale determine a decimal whose zero is not negative. -/
theorem eq_of_value_eq {d e : Decimal} (hs : d.scale = e.scale) (hv : d.value = e.value) (hd : d.Signed)
    (he : e.Signed) : d = e := by
  have hn : d.negative = e.negative := by
    rw [Bool.eq_iff_iff, hd.neg_iff, he.neg_iff, hv]
  have hm : d.magnitude = e.magnitude := by rw [← abs_value, ← abs_value, hv]
  unfold magnitude at hm
  rw [hs, div_left_inj' (by positivity)] at hm
  exact Decimal.ext hn (by exact_mod_cast hm) hs

/-! ## The sign of zero -/

theorem signed_unsignedZero (d : Decimal) : d.unsignedZero.Signed := by
  unfold unsignedZero Signed
  split_ifs with h
  · intro _; rfl
  · intro h'; exact absurd h' h

theorem unsignedZero_eq_self_iff {d : Decimal} : d.unsignedZero = d ↔ d.Signed := by
  refine ⟨fun h => h ▸ signed_unsignedZero d, fun h => ?_⟩
  unfold unsignedZero
  split_ifs with h0
  · exact Decimal.ext (h h0).symm rfl rfl
  · rfl

theorem value_unsignedZero (d : Decimal) : d.unsignedZero.value = d.value := by
  unfold unsignedZero
  split_ifs with h
  · rw [value_eq_zero.2 h, value_eq_zero]; exact h
  · rfl

theorem scale_unsignedZero (d : Decimal) : d.unsignedZero.scale = d.scale := by
  unfold unsignedZero
  split_ifs <;> rfl

theorem coefficient_unsignedZero (d : Decimal) : d.unsignedZero.coefficient = d.coefficient := by
  unfold unsignedZero
  split_ifs <;> rfl

/-! ## Changes of scale -/

theorem roundTo_signed {places : ℕ} {b : Bool} {x : ℚ} :
    roundTo places (if b then -x else x) = if b then -roundTo places x else roundTo places x := by
  split_ifs
  · exact roundTo_neg places x
  · rfl

theorem value_rounded (d : Decimal) (places : ℕ) : (d.rounded places).value = roundTo places d.value := by
  unfold rounded
  split_ifs with h
  · rw [value_unsignedZero]
    simp only [value, roundTo_signed, magnitude, roundTo_div_of_lt d.coefficient h]
  · rw [value, roundTo_signed, magnitude, roundTo_div d.coefficient (by omega)]

theorem scale_rounded_le (d : Decimal) (places : ℕ) : (d.rounded places).scale ≤ places := by
  unfold rounded
  split_ifs with h
  · rw [scale_unsignedZero]
  · omega

/-- Widening multiplies by a power of ten, and falls short of it only where 96 bits are full. -/
theorem widen_spec (most c : ℕ) :
    (widen most c).1 = c * 10 ^ (widen most c).2 ∧ ((widen most c).2 = most ∨ 2 ^ 96 ≤ 10 * (widen most c).1) := by
  induction most generalizing c with
  | zero => simp [widen]
  | succ most ih =>
    unfold widen
    split_ifs with h
    · obtain ⟨h1, h2⟩ := ih (10 * c)
      refine ⟨?_, ?_⟩
      · dsimp only
        rw [h1, pow_succ]; ring
      · rcases h2 with h2 | h2
        · exact .inl (congrArg (· + 1) h2)
        · exact .inr h2
    · exact ⟨by simp, .inr (by simpa using h)⟩

theorem value_extended (d : Decimal) {places : ℕ} (h : places ≤ 28) : (d.extended places h).value = d.value := by
  unfold extended
  split_ifs with hs h0
  · rw [value_eq_zero.2 h0, value_eq_zero]; exact h0
  · obtain ⟨hw, -⟩ := widen_spec (places - d.scale) d.coefficient
    simp only [value, magnitude, hw]
    push_cast
    rw [pow_add, mul_div_mul_right _ _ (by positivity)]
  · rfl

/-- Zeros are added up to the scale that is asked for, or until 96 bits are full. -/
theorem scale_extended {d : Decimal} {places : ℕ} (h : places ≤ 28) (hs : d.scale ≤ places) :
    (d.extended places h).scale ≤ places ∧
      ((d.extended places h).scale = places ∨ 2 ^ 96 ≤ 10 * (d.extended places h).coefficient) := by
  unfold extended
  rw [dif_pos hs]
  split_ifs with h0
  · exact ⟨le_rfl, .inl rfl⟩
  · obtain ⟨-, hw⟩ := widen_spec (places - d.scale) d.coefficient
    have hle := widen_times_le (places - d.scale) d.coefficient
    refine ⟨by dsimp only; omega, ?_⟩
    rcases hw with hw | hw
    · exact .inl (by dsimp only; omega)
    · exact .inr hw

end TradeLedger.Decimal

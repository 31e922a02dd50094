/-
Decimals of at most 96 bits and 28 fraction digits. The number of fraction digits belongs to the
value: `1.5` and `1.50` are two decimals of one number, and both print as they are.
-/
import TradeLedger.Rounding

namespace TradeLedger

-- powers are those of the numbers themselves, whatever algebra is imported
attribute [local instance (high)] instPowNat

/-- The number `coefficient / 10 ^ scale`, or its negative. -/
@[ext] structure Decimal where
  negative : Bool
  coefficient : Nat
  scale : Nat
  coefficient_lt : coefficient < 2 ^ (96 : Nat)
  scale_le : scale ≤ 28
  deriving DecidableEq

namespace Decimal

/-- The decimal of these parts, if they fit. -/
def ofParts? (negative : Bool) (coefficient scale : Nat) : Option Decimal :=
  if h : coefficient < 2 ^ (96 : Nat) ∧ scale ≤ 28 then some ⟨negative, coefficient, scale, h.1, h.2⟩
  else none

/-- Zero is not negative. -/
def unsignedZero (d : Decimal) : Decimal :=
  if d.coefficient = 0 then { d with negative := false } else d

/-! ## Text -/

/-- The digits of a number, with zeros in front up to a length. -/
def padded (length n : Nat) : List Char :=
  let ds := Nat.toDigits 10 n
  List.replicate (length - ds.length) '0' ++ ds

/-- At least one digit, and after a point as many as the scale says. -/
def chars (d : Decimal) : List Char :=
  let ds := padded (d.scale + 1) d.coefficient
  let whole := ds.length - d.scale
  let magnitude := if d.scale = 0 then ds else ds.take whole ++ '.' :: ds.drop whole
  if d.negative then '-' :: magnitude else magnitude

def text (d : Decimal) : String := String.ofList d.chars

/-! ## Change of scale -/

/-- Multiplies by ten, at most `most` times and as long as 96 bits hold the product; also says how
often it did. -/
def widen : Nat → Nat → Nat × Nat
  | 0, c => (c, 0)
  | most + 1, c =>
    if 10 * c < 2 ^ (96 : Nat) then
      let (c, times) := widen most (10 * c)
      (c, times + 1)
    else (c, 0)

theorem widen_lt {most c : Nat} (h : c < 2 ^ (96 : Nat)) : (widen most c).1 < 2 ^ (96 : Nat) := by
  induction most generalizing c with
  | zero => exact h
  | succ most ih =>
    unfold widen
    split
    · exact ih (by assumption)
    · exact h

theorem widen_times_le (most c : Nat) : (widen most c).2 ≤ most := by
  induction most generalizing c with
  | zero => exact Nat.le_refl _
  | succ most ih =>
    unfold widen
    split
    · exact Nat.succ_le_succ (ih _)
    · exact Nat.zero_le _

/-- At most `places` fraction digits: more are rounded off, a tie to the even digit. Zero loses its
sign by it. -/
def rounded (d : Decimal) (places : Nat) : Decimal :=
  if h : places < d.scale then
    have hc : roundHalfEven d.coefficient (10 ^ (d.scale - places)) < 2 ^ (96 : Nat) := by
      have hpow : 10 ^ (1 : Nat) ≤ 10 ^ (d.scale - places) := Nat.pow_le_pow_right (by omega) (by omega)
      have hq : d.coefficient / 10 ^ (d.scale - places) ≤ d.coefficient / 10 :=
        Nat.div_le_div_left (by omega) (by omega)
      have := d.coefficient_lt
      unfold roundHalfEven
      simp only
      split
      · omega
      · split
        · omega
        · split <;> omega
    unsignedZero ⟨d.negative, _, places, hc, Nat.le_trans (Nat.le_of_lt h) d.scale_le⟩
  else d

/-- Exactly `places` fraction digits by adding zeros, or as many as 96 bits hold. Zero takes any
number of them. -/
def extended (d : Decimal) (places : Nat) (h : places ≤ 28) : Decimal :=
  if hs : d.scale ≤ places then
    if d.coefficient = 0 then { d with scale := places, scale_le := h }
    else
      let w := widen (places - d.scale) d.coefficient
      { d with
        coefficient := w.1
        scale := d.scale + w.2
        coefficient_lt := widen_lt d.coefficient_lt
        scale_le := by
          have := widen_times_le (places - d.scale) d.coefficient
          show d.scale + (widen (places - d.scale) d.coefficient).2 ≤ 28
          omega }
  else d

/-- Exactly `places` fraction digits where there were more; a half is rounded away from zero. -/
def cut (d : Decimal) (places : Nat) : Decimal :=
  if h : places < d.scale then
    have hc :
        (d.coefficient + 5 * 10 ^ (d.scale - places - 1)) / 10 ^ (d.scale - places) < 2 ^ (96 : Nat) := by
      have hd := d.coefficient_lt
      have hpow : 10 ^ (d.scale - places) = 10 * 10 ^ (d.scale - places - 1) := by
        rw [← Nat.pow_succ']; congr 1; omega
      have hpos : 0 < 10 ^ (d.scale - places - 1) := Nat.pow_pos (by omega)
      generalize 10 ^ (d.scale - places - 1) = unit at hpow hpos ⊢
      rw [hpow, Nat.div_lt_iff_lt_mul (by omega)]
      omega
    ⟨d.negative, _, places, hc, Nat.le_trans (Nat.le_of_lt h) d.scale_le⟩
  else d

end Decimal

end TradeLedger

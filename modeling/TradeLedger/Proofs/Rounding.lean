/-
Rounding half to even, as a function on the rational numbers: to an integer, and to a number of
fraction digits. The result is the only integer within half a unit that is even if it is half a
unit off. What is computed with quotients of natural numbers is this function.
-/
import Mathlib.Tactic
import TradeLedger.Rounding

namespace TradeLedger

/-! ## To an integer -/

/-- The integer nearest to a number; of two equally near, the even one. -/
def halfEven (x : ℚ) : ℤ :=
  if x - ⌊x⌋ < 1 / 2 then ⌊x⌋
  else if 1 / 2 < x - ⌊x⌋ then ⌊x⌋ + 1
  else if Even ⌊x⌋ then ⌊x⌋
  else ⌊x⌋ + 1

/-- Within half a unit of `x`, and even where it is half a unit off. -/
def IsNearest (x : ℚ) (k : ℤ) : Prop := |x - k| ≤ 1 / 2 ∧ (|x - k| = 1 / 2 → Even k)

theorem isNearest_halfEven (x : ℚ) : IsNearest x (halfEven x) := by
  have h0 := Int.floor_le x
  have h1 := Int.lt_floor_add_one x
  unfold halfEven IsNearest
  split_ifs with hlt hgt heven
  · rw [abs_of_nonneg (by linarith)]
    exact ⟨hlt.le, fun h => absurd h hlt.ne⟩
  · push_cast
    rw [abs_of_neg (by linarith)]
    exact ⟨by linarith, fun h => by linarith⟩
  · rw [abs_of_nonneg (by linarith)]
    exact ⟨not_lt.1 hgt, fun _ => heven⟩
  · push_cast
    rw [abs_of_neg (by linarith)]
    exact ⟨by linarith, fun _ => (Int.not_even_iff_odd.1 heven).add_one⟩

theorem IsNearest.unique {x : ℚ} {a b : ℤ} (ha : IsNearest x a) (hb : IsNearest x b) : a = b := by
  obtain ⟨ha1, ha2⟩ := ha
  obtain ⟨hb1, hb2⟩ := hb
  rw [abs_le] at ha1 hb1
  have hab : (a : ℚ) - b ≤ 1 ∧ (b : ℚ) - a ≤ 1 := ⟨by linarith, by linarith⟩
  have hab1 : a - b ≤ 1 := by exact_mod_cast hab.1
  have hab2 : b - a ≤ 1 := by exact_mod_cast hab.2
  -- two different integers within half a unit are both half a unit off, so both even, and neighbours
  by_contra hne
  rcases lt_or_gt_of_ne hne with hlt | hlt
  · have hb' : b = a + 1 := by omega
    subst hb'
    push_cast at hb1 hb2
    have hx : x - a = 1 / 2 := by linarith
    have he := ha2 (by rw [hx]; norm_num)
    have ho := hb2 (by rw [show x - (a + 1) = -(1 / 2) by linarith]; norm_num)
    exact (Int.even_add_one.1 ho) he
  · have ha' : a = b + 1 := by omega
    subst ha'
    push_cast at ha1 ha2
    have hx : x - b = 1 / 2 := by linarith
    have he := hb2 (by rw [hx]; norm_num)
    have ho := ha2 (by rw [show x - (b + 1) = -(1 / 2) by linarith]; norm_num)
    exact (Int.even_add_one.1 ho) he

theorem halfEven_eq {x : ℚ} {k : ℤ} (h : IsNearest x k) : halfEven x = k := (isNearest_halfEven x).unique h

@[simp] theorem halfEven_intCast (k : ℤ) : halfEven k = k := halfEven_eq (by simp [IsNearest])

/-- Rounding does not depend on the sign. -/
theorem halfEven_neg (x : ℚ) : halfEven (-x) = -halfEven x := by
  obtain ⟨h1, h2⟩ := isNearest_halfEven x
  have hd : |-x - ((-halfEven x : ℤ) : ℚ)| = |x - halfEven x| := by
    push_cast
    rw [show -x - -(halfEven x : ℚ) = -(x - halfEven x) by ring, abs_neg]
  apply halfEven_eq
  rw [IsNearest, hd]
  exact ⟨h1, fun h => (h2 h).neg⟩

theorem le_halfEven {x : ℚ} {k : ℤ} (h : (k : ℚ) ≤ x) : k ≤ halfEven x := by
  have hk : k ≤ ⌊x⌋ := Int.le_floor.2 h
  unfold halfEven
  split_ifs <;> omega

/-- The quotient of two natural numbers is rounded by their quotient and remainder. -/
theorem halfEven_div (n : ℕ) {d : ℕ} (hd : 0 < d) : halfEven (n / d) = roundHalfEven n d := by
  have hd' : (0 : ℚ) < d := by exact_mod_cast hd
  have hf : ⌊(n : ℚ) / d⌋ = (n / d : ℕ) := by
    rw [Int.floor_div_natCast, Int.floor_natCast, Int.natCast_ediv]
  have hx : (n : ℚ) / d - ((n / d : ℕ) : ℤ) = (n % d : ℕ) / d := by
    have hn : (d : ℚ) * (n / d : ℕ) + (n % d : ℕ) = n := by exact_mod_cast Nat.div_add_mod n d
    rw [eq_div_iff hd'.ne', sub_mul, div_mul_cancel₀ _ hd'.ne', Int.cast_natCast]
    linarith
  have hlt : ((n % d : ℕ) : ℚ) / d < 1 / 2 ↔ 2 * (n % d) < d := by
    rw [div_lt_div_iff₀ hd' (by norm_num), one_mul, mul_comm]
    exact_mod_cast Iff.rfl
  have hgt : 1 / 2 < ((n % d : ℕ) : ℚ) / d ↔ d < 2 * (n % d) := by
    rw [div_lt_div_iff₀ (by norm_num) hd', one_mul, mul_comm]
    exact_mod_cast Iff.rfl
  unfold halfEven roundHalfEven
  rw [hf, hx]
  simp only [hlt, hgt, Int.even_coe_nat, Nat.even_iff]
  split_ifs <;> simp

/-- What lies behind a tenth matters for rounding to an integer only as far as it is there or not. -/
theorem halfEven_sticky (a : ℕ) {x y : ℚ} (hx : 0 ≤ x ∧ x < 1 / 10) (hy : 0 ≤ y ∧ y < 1 / 10) (hxy : x = 0 ↔ y = 0) :
    halfEven (a / 10 + x) = halfEven (a / 10 + y) := by
  obtain ⟨h1, h2⟩ := isNearest_halfEven (a / 10 + y)
  generalize halfEven (a / 10 + y) = k at h1 h2
  rw [abs_le] at h1
  have hlo : -6 < (a : ℤ) - 10 * k := by
    have : (-6 : ℚ) < a - 10 * k := by linarith
    exact_mod_cast this
  have hhi : (a : ℤ) - 10 * k ≤ 5 := by
    have : (a : ℚ) - 10 * k ≤ 5 := by linarith
    exact_mod_cast this
  obtain ⟨m, hm⟩ : ∃ m : ℤ, (a : ℤ) - 10 * k = m := ⟨_, rfl⟩
  have hmq : (a : ℚ) = 10 * k + m := by
    have : (a : ℤ) = 10 * k + m := by omega
    exact_mod_cast this
  rw [hm] at hlo hhi
  rw [hmq] at h1 h2
  -- with `a` in tenths around `k`, only the distance of five tenths is close to a tie
  apply halfEven_eq
  rw [IsNearest, hmq]
  rcases eq_or_ne m 5 with rfl | h5
  · -- half a unit above `k`: nothing may lie behind the tenth
    have hy0 : y = 0 := by push_cast at h1; linarith [h1.2, hy.1]
    rw [hxy.2 hy0]
    rw [hy0] at h2
    refine ⟨?_, h2⟩
    rw [abs_le]
    push_cast
    constructor <;> linarith
  · have hm4 : (m : ℚ) ≤ 4 := by exact_mod_cast (by omega : m ≤ 4)
    have hm5 : (-5 : ℚ) ≤ m := by exact_mod_cast (by omega : -5 ≤ m)
    refine ⟨by rw [abs_le]; constructor <;> linarith [hx.1, hx.2], fun h => ?_⟩
    -- off by half a unit only below `k`, and then again with nothing behind the tenth
    rcases (abs_eq (by norm_num)).1 h with hh | hh
    · linarith [hx.2]
    · have hx0 : x = 0 := by linarith [hx.1]
      apply h2
      rw [hxy.1 hx0, ← hx0]
      exact h

/-! ## To fraction digits -/

/-- A number rounded to `places` fraction digits. -/
def roundTo (places : ℕ) (q : ℚ) : ℚ := halfEven (q * 10 ^ places) / 10 ^ places

theorem roundTo_neg (places : ℕ) (q : ℚ) : roundTo places (-q) = -roundTo places q := by
  rw [roundTo, neg_mul, halfEven_neg, Int.cast_neg, neg_div, roundTo]

/-- A number with no more fraction digits is left as it is. -/
theorem roundTo_div {places k : ℕ} (n : ℕ) (h : k ≤ places) : roundTo places (n / 10 ^ k) = n / 10 ^ k := by
  have hx : (n : ℚ) / 10 ^ k * 10 ^ places = ((n * 10 ^ (places - k) : ℕ) : ℤ) := by
    push_cast
    rw [div_mul_eq_mul_div, div_eq_iff (by positivity), mul_assoc, ← pow_add, Nat.sub_add_cancel h]
  rw [roundTo, hx, halfEven_intCast, ← hx, mul_div_cancel_right₀ _ (by positivity)]

/-- A number with more fraction digits is rounded by a quotient. -/
theorem roundTo_div_of_lt {places k : ℕ} (n : ℕ) (h : places < k) :
    roundTo places (n / 10 ^ k) = roundHalfEven n (10 ^ (k - places)) / 10 ^ places := by
  have hx : (n : ℚ) / 10 ^ k * 10 ^ places = n / ((10 ^ (k - places) : ℕ) : ℚ) := by
    push_cast
    rw [div_mul_eq_mul_div, div_eq_div_iff (by positivity) (by positivity), mul_assoc, ← pow_add,
      Nat.add_sub_cancel' h.le]
  rw [roundTo, hx, halfEven_div n (by positivity)]
  push_cast
  rfl

/-- A number that has come up to an integer stays there when it is rounded. -/
theorem le_roundTo (places : ℕ) {q : ℚ} {n : ℕ} (h : (n : ℚ) ≤ q) : (n : ℚ) ≤ roundTo places q := by
  have hk : ((n * 10 ^ places : ℕ) : ℤ) ≤ halfEven (q * 10 ^ places) := by
    apply le_halfEven
    push_cast
    gcongr
  rw [roundTo, le_div_iff₀ (by positivity)]
  exact_mod_cast hk

end TradeLedger

/-
The numbers of the format: their significands have 53 bits, and their exponents are in range. Whatever
is rounded to binary64 is one of them, so every real number that is read is. The digits printed for
one that is not zero are those of a number that is not zero either, as long as the estimate of its
decimal logarithm is not far off, and within the range of the exponents it is not.
-/
import TradeLedger.Binary64.Shortest
import TradeLedger.Proofs.Rounding

namespace TradeLedger.Binary64

/-- A number of the format. -/
structure Finite (x : Binary64) : Prop where
  significand : x.significand < 2 ^ 53
  least : leastExponent ≤ x.exponent
  greatest : x.exponent ≤ greatestExponent

/-! ## Rounding to the format -/

theorem roundHalfEven_le {n d k : ℕ} (h : n ≤ k * d) : roundHalfEven n d ≤ k := by
  rcases Nat.eq_zero_or_pos d with rfl | hd
  · obtain rfl : n = 0 := by omega
    exact Nat.zero_le k
  · have hnear := (roundHalfEven_near n hd).2
    -- more than `k` would be more than half a unit off
    by_contra hlt
    have hk : k + 1 ≤ roundHalfEven n d := by omega
    have := Nat.mul_le_mul_right d (Nat.mul_le_mul_left 2 hk)
    linarith [Nat.add_mul (2 * k) 2 d, Nat.mul_assoc 2 k d]

/-- The binary logarithm of a quotient is not too small. -/
theorem lt_two_zpow_log2Ratio (n : ℕ) {d : ℕ} (hd : d ≠ 0) : (n : ℚ) / d < 2 ^ (log2Ratio n d + 1) := by
  have hd' : (0 : ℚ) < d := by exact_mod_cast Nat.pos_of_ne_zero hd
  unfold log2Ratio
  simp only
  split
  · have hnum : (n : ℚ) < 2 ^ (n.log2 + 1) := by exact_mod_cast Nat.lt_log2_self
    have hden : (2 : ℚ) ^ d.log2 ≤ d := by exact_mod_cast Nat.log2_self_le hd
    rw [div_lt_iff₀ hd']
    calc (n : ℚ) < 2 ^ (n.log2 + 1) := hnum
      _ = 2 ^ ((n.log2 : ℤ) - d.log2 + 1) * 2 ^ d.log2 := by
        rw [← zpow_natCast, ← zpow_natCast, ← zpow_add₀ two_ne_zero]
        congr 1
        push_cast
        ring
      _ ≤ 2 ^ ((n.log2 : ℤ) - d.log2 + 1) * d := mul_le_mul_of_nonneg_left hden (by positivity)
  · rename_i hlt
    generalize (n.log2 : ℤ) - d.log2 = e at hlt ⊢
    rw [not_le] at hlt
    have hlt : (n : ℚ) * 2 ^ (-e).toNat < d * 2 ^ e.toNat := by exact_mod_cast hlt
    rw [div_lt_iff₀ hd', sub_add_cancel]
    have hsplit : (2 : ℚ) ^ e.toNat = 2 ^ e * 2 ^ (-e).toNat := by
      rw [← zpow_natCast, ← zpow_natCast, ← zpow_add₀ two_ne_zero]
      congr 1
      omega
    rw [hsplit, ← mul_assoc] at hlt
    rw [mul_comm]
    exact lt_of_mul_lt_mul_right hlt (by positivity)

/-- On the grid of the format a quotient has 53 bits before the point. -/
theorem scaled_le {n d : ℕ} (hd : d ≠ 0) {q : ℤ} (hq : log2Ratio n d - 52 ≤ q) :
    n * 2 ^ (-q).toNat ≤ 2 ^ 53 * (d * 2 ^ q.toNat) := by
  have hd' : (0 : ℚ) < d := by exact_mod_cast Nat.pos_of_ne_zero hd
  have hlt : (n : ℚ) / d < 2 ^ (53 + q) :=
    (lt_two_zpow_log2Ratio n hd).trans_le (zpow_le_zpow_right₀ one_le_two (by omega))
  have hsplit : (2 : ℚ) ^ (53 + q) * 2 ^ (-q).toNat = 2 ^ 53 * 2 ^ q.toNat := by
    rw [← zpow_natCast, ← zpow_natCast, ← zpow_natCast, ← zpow_add₀ two_ne_zero, ← zpow_add₀ two_ne_zero]
    congr 1
    omega
  rw [div_lt_iff₀ hd'] at hlt
  have hle : (n : ℚ) * 2 ^ (-q).toNat ≤ 2 ^ 53 * (d * 2 ^ q.toNat) := by
    calc (n : ℚ) * 2 ^ (-q).toNat ≤ 2 ^ (53 + q) * d * 2 ^ (-q).toNat :=
          mul_le_mul_of_nonneg_right hlt.le (by positivity)
      _ = 2 ^ (53 + q) * 2 ^ (-q).toNat * d := by ring
      _ = 2 ^ 53 * (d * 2 ^ q.toNat) := by rw [hsplit]; ring
  exact_mod_cast hle

theorem finite_zero : zero.Finite := ⟨by decide, by decide, by decide⟩

theorem Finite.neg {x : Binary64} (h : x.Finite) : x.neg.Finite := ⟨h.significand, h.least, h.greatest⟩

/-- Whatever is rounded is a number of the format. -/
theorem finite_nearest {n d : ℕ} {x : Binary64} (h : nearest n d = some x) : x.Finite := by
  unfold nearest at h
  split_ifs at h with hn
  · cases h
    exact finite_zero
  · have hbits : roundHalfEven (n * 2 ^ (-max (log2Ratio n d - 52) leastExponent).toNat)
        (d * 2 ^ (max (log2Ratio n d - 52) leastExponent).toNat) ≤ 2 ^ 53 := by
      rcases Nat.eq_zero_or_pos d with rfl | hd
      · -- with nothing to divide by, the result is at most one
        unfold roundHalfEven
        simp only [Nat.zero_mul, Nat.div_zero, Nat.mod_zero]
        split_ifs <;> omega
      · exact roundHalfEven_le (scaled_le hd.ne' (le_max_left _ _))
    have hleast : leastExponent ≤ max (log2Ratio n d - 52) leastExponent := le_max_right _ _
    simp only at h
    generalize max (log2Ratio n d - 52) leastExponent = q at h hbits hleast
    generalize roundHalfEven _ _ = m at h hbits
    split_ifs at h with hcarry hrange hrange
    · cases h
      exact ⟨by norm_num, hleast.trans (lt_add_one q).le, not_lt.1 hrange⟩
    · cases h
      exact ⟨lt_of_le_of_ne hbits hcarry, hleast, not_lt.1 hrange⟩

theorem finite_mul {x y z : Binary64} (h : x.mul y = some z) : z.Finite := finite_nearest h

theorem finite_div {x y z : Binary64} (h : x.div y = some z) : z.Finite := finite_nearest h

/-! ## The digits of a number other than zero -/

/-- A logarithm of ten that is estimated from one of two is at most 16 too large. -/
theorem ten_zpow_le {k : ℤ} (hk : -1074 ≤ k) (hk' : k ≤ 1023) : (10 : ℚ) ^ (k * 30103 / 100000 - 16) ≤ 2 ^ k := by
  have hten : (1 : ℚ) ≤ 10 := by norm_num
  rcases le_or_gt 0 k with hpos | hneg
  · -- a thousand is less than the tenth power of two
    obtain ⟨j, hj⟩ := Int.eq_ofNat_of_zero_le (show 0 ≤ k / 10 by omega)
    calc (10 : ℚ) ^ (k * 30103 / 100000 - 16) ≤ 10 ^ ((3 * j : ℕ) : ℤ) := zpow_le_zpow_right₀ hten (by omega)
      _ = 1000 ^ j := by rw [zpow_natCast, pow_mul]; norm_num
      _ ≤ 1024 ^ j := pow_le_pow_left₀ (by norm_num) (by norm_num) j
      _ = 2 ^ ((10 * j : ℕ) : ℤ) := by rw [zpow_natCast, pow_mul]; norm_num
      _ ≤ 2 ^ k := zpow_le_zpow_right₀ one_le_two (by omega)
  · -- the 13th power of two is less than ten thousand
    obtain ⟨j, hj⟩ := Int.eq_ofNat_of_zero_le (show 0 ≤ -(k / 13) by omega)
    calc (10 : ℚ) ^ (k * 30103 / 100000 - 16) ≤ 10 ^ (-((4 * j : ℕ) : ℤ)) := zpow_le_zpow_right₀ hten (by omega)
      _ = (10000 ^ j)⁻¹ := by rw [zpow_neg, zpow_natCast, pow_mul]; norm_num
      _ ≤ (8192 ^ j)⁻¹ := inv_anti₀ (by positivity) (pow_le_pow_left₀ (by norm_num) (by norm_num) j)
      _ = 2 ^ (-((13 * j : ℕ) : ℤ)) := by rw [zpow_neg, zpow_natCast, pow_mul]; norm_num
      _ ≤ 2 ^ k := zpow_le_zpow_right₀ one_le_two (by omega)

section Digits

variable {x : Binary64}

/-- The decimal on a grid that is fine enough is not zero. -/
theorem floorAt_pos {p : ℤ} (h : (10 : ℚ) ^ p ≤ x.significand * 2 ^ x.exponent) : 0 < x.floorAt p := by
  have hsplit (b : ℚ) (hb : b ≠ 0) (e : ℤ) : b ^ e * b ^ (-e).toNat = b ^ e.toNat := by
    rw [← zpow_natCast, ← zpow_natCast, ← zpow_add₀ hb]
    congr 1
    omega
  have hle : (2 : ℚ) ^ (-x.exponent).toNat * 10 ^ p.toNat ≤
      x.significand * 2 ^ x.exponent.toNat * 10 ^ (-p).toNat := by
    rw [← hsplit 10 (by norm_num) p, ← hsplit 2 two_ne_zero x.exponent]
    calc (2 : ℚ) ^ (-x.exponent).toNat * (10 ^ p * 10 ^ (-p).toNat)
        = 10 ^ p * (2 ^ (-x.exponent).toNat * 10 ^ (-p).toNat) := by ring
      _ ≤ x.significand * 2 ^ x.exponent * (2 ^ (-x.exponent).toNat * 10 ^ (-p).toNat) :=
        mul_le_mul_of_nonneg_right h (by positivity)
      _ = _ := by ring
  unfold floorAt
  exact Nat.div_pos (by exact_mod_cast hle) (by positivity)

theorem dropZeros_pos {most c : ℕ} {p : ℤ} (h : 0 < c) : 0 < (dropZeros most c p).1 := by
  induction most generalizing c p with
  | zero => exact h
  | succ most ih =>
    unfold dropZeros
    split_ifs with hzero
    · exact ih (by omega)
    · exact h

variable (hx : x.significand ≠ 0)

include hx

/-- Zero does not read back as another number. -/
theorem readsBack_zero (p : ℤ) : x.readsBack 0 p = false := by
  have hlow : 0 < (ends x).1 := by
    unfold ends
    simp only
    split_ifs <;> omega
  have hcompare : compareDecimal 0 p (ends x).1 (x.exponent - 2) = .lt := by
    unfold compareDecimal
    rw [Nat.zero_mul, Nat.zero_mul, Nat.compare_eq_lt]
    positivity
  unfold readsBack
  simp [hcompare]

theorem onGrid?_pos {p : ℤ} {c : ℕ} (h : x.onGrid? p = some c) : 0 < c := by
  -- what reads back is not zero, and its neighbour above is not zero anyway
  have hfloor (hback : x.readsBack (x.floorAt p) p = true) : 0 < x.floorAt p := by
    refine Nat.pos_of_ne_zero fun h0 => ?_
    rw [h0, readsBack_zero hx] at hback
    cases hback
  unfold onGrid? at h
  simp only at h
  split at h
  · rename_i hback _
    have := hfloor hback
    split at h <;> cases h
    · exact this
    · exact Nat.succ_pos _
    · split_ifs <;> omega
  · cases h
    exact hfloor ‹_›
  · cases h
    exact Nat.succ_pos _
  · cases h

theorem search_pos {more : ℕ} {p : ℤ} (h : 0 < x.floorAt (p - more)) : 0 < (x.search more p).1 := by
  induction more generalizing p with
  | zero =>
    rw [Nat.cast_zero, sub_zero] at h
    exact h
  | succ more ih =>
    unfold search
    split
    · exact onGrid?_pos hx ‹_›
    · exact ih (by rwa [show p - 1 - (more : ℤ) = p - (more + 1 : ℕ) by push_cast; ring])

/-- The shortest decimal of a number other than zero is not zero. -/
theorem shortest_pos (hfinite : x.Finite) : 0 < x.shortest.1 := by
  have hlog : x.log10 ≤ (x.significand.log2 + x.exponent) * 30103 / 100000 + 1 := by
    unfold log10
    simp only
    split_ifs <;> omega
  have hbits : x.significand.log2 < 53 := (Nat.log2_lt hx).2 hfinite.significand
  have hleast : (-1074 : ℤ) ≤ x.exponent := hfinite.least
  have hgreatest : x.exponent ≤ 971 := hfinite.greatest
  have hfloor : 0 < x.floorAt (x.log10 - (17 : ℕ)) := by
    refine floorAt_pos ?_
    calc (10 : ℚ) ^ (x.log10 - (17 : ℕ)) ≤ 10 ^ ((x.significand.log2 + x.exponent) * 30103 / 100000 - 16) :=
          zpow_le_zpow_right₀ (by norm_num) (by push_cast; omega)
      _ ≤ 2 ^ ((x.significand.log2 : ℤ) + x.exponent) := ten_zpow_le (by omega) (by omega)
      _ = 2 ^ x.significand.log2 * 2 ^ x.exponent := by rw [zpow_add₀ two_ne_zero, zpow_natCast]
      _ ≤ x.significand * 2 ^ x.exponent :=
        mul_le_mul_of_nonneg_right (by exact_mod_cast Nat.log2_self_le hx) (by positivity)
  unfold shortest
  exact dropZeros_pos (search_pos hx hfloor)

end Digits

end TradeLedger.Binary64

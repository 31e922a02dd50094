/-
Rounding a quotient of natural numbers to the nearest integer, a tie to the even one.
-/
namespace TradeLedger

/-- The integer nearest to `n / d`; of two equally near, the even one. -/
def roundHalfEven (n d : Nat) : Nat :=
  let q := n / d
  let r := n % d
  if 2 * r < d then q
  else if d < 2 * r then q + 1
  else if q % 2 = 0 then q
  else q + 1

/-- The result is within half a unit of the quotient. -/
theorem roundHalfEven_near (n : Nat) {d : Nat} (h : 0 < d) :
    2 * n ≤ (2 * roundHalfEven n d + 1) * d ∧ 2 * roundHalfEven n d * d ≤ 2 * n + d := by
  have hn := Nat.div_add_mod n d
  have hr := Nat.mod_lt n h
  have hc : n / d * d = d * (n / d) := Nat.mul_comm ..
  unfold roundHalfEven
  simp only
  split
  · constructor <;> simp only [Nat.add_mul, Nat.mul_assoc, hc] <;> omega
  · split
    · constructor <;> simp only [Nat.add_mul, Nat.mul_add, Nat.mul_assoc, hc] <;> omega
    · split
      · constructor <;> simp only [Nat.add_mul, Nat.mul_assoc, hc] <;> omega
      · constructor <;> simp only [Nat.add_mul, Nat.mul_add, Nat.mul_assoc, hc] <;> omega

/-- A quotient half-way between two integers goes to the even one. -/
theorem roundHalfEven_tie {n d : Nat} (h : 2 * (n % d) = d) : roundHalfEven n d % 2 = 0 := by
  unfold roundHalfEven
  simp only
  split
  · omega
  · split
    · omega
    · split <;> omega

@[simp] theorem roundHalfEven_mul (q : Nat) {d : Nat} (h : 0 < d) :
    roundHalfEven (q * d) d = q := by
  simp [roundHalfEven, Nat.mul_div_cancel _ h, Nat.mul_mod_left, h]

end TradeLedger

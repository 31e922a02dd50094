/-
The shortest decimal that reads back as a binary64 number, and of the shortest the nearest.

For one digit, two digits and so on up to seventeen, the two neighbours of the value on the grid of
that many digits are tried; the first grid on which one of them rounds to the value wins.
-/
import TradeLedger.Binary64

namespace TradeLedger.Binary64

-- powers are those of the numbers themselves, whatever algebra is imported
attribute [local instance (high)] instPowNat

/-! ## Exact comparison of decimals and binaries -/

/-- Compares `a * 10 ^ p` with `b * 2 ^ e`. -/
def compareDecimal (a : Nat) (p : Int) (b : Nat) (e : Int) : Ordering :=
  compare (a * 10 ^ p.toNat * 2 ^ (-e).toNat) (b * 2 ^ e.toNat * 10 ^ (-p).toNat)

/-- The ends of the interval that rounds to the value, in units of a quarter of its last place.
The lower neighbour of a power of two is half as far away as the upper one. -/
def ends (x : Binary64) : Nat × Nat :=
  let m := x.significand
  (if m = 2 ^ (52 : Nat) ∧ leastExponent < x.exponent then 4 * m - 1 else 4 * m - 2, 4 * m + 2)

/-- The decimal `c * 10 ^ p` rounds to the value. An end of the interval does so if the significand
is even. -/
def readsBack (x : Binary64) (c : Nat) (p : Int) : Bool :=
  let (low, high) := ends x
  let closed := x.significand % 2 = 0
  let aboveLow := compareDecimal c p low (x.exponent - 2)
  let belowHigh := compareDecimal c p high (x.exponent - 2)
  (aboveLow = .gt ∨ aboveLow = .eq ∧ closed) ∧ (belowHigh = .lt ∨ belowHigh = .eq ∧ closed)

/-! ## The search -/

/-- The greatest `l` with `10 ^ l` not above the magnitude: an estimate from the binary logarithm,
which is at most one off, then put right. -/
def log10 (x : Binary64) : Int :=
  let l := ((x.significand.log2 : Int) + x.exponent) * 30103 / 100000
  if compareDecimal 1 (l + 1) x.significand x.exponent ≠ .gt then l + 1
  else if compareDecimal 1 l x.significand x.exponent = .gt then l - 1
  else l

/-- The magnitude over `10 ^ p`, rounded down. -/
def floorAt (x : Binary64) (p : Int) : Nat :=
  x.significand * 2 ^ x.exponent.toNat * 10 ^ (-p).toNat /
    (2 ^ (-x.exponent).toNat * 10 ^ p.toNat)

/-- The better of the two neighbours on the grid of multiples of `10 ^ p` that read back, if one
does. A tie goes to the even one. -/
def onGrid? (x : Binary64) (p : Int) : Option Nat :=
  let c := floorAt x p
  match readsBack x c p, readsBack x (c + 1) p with
  | true, true =>
    match compareDecimal (2 * c + 1) p (2 * x.significand) x.exponent with
    | .gt => some c
    | .lt => some (c + 1)
    | .eq => some (if c % 2 = 0 then c else c + 1)
  | true, false => some c
  | false, true => some (c + 1)
  | false, false => none

/-- Tries `more` grids, the first of them multiples of `10 ^ p`. -/
def search (x : Binary64) : Nat → Int → Nat × Int
  | 0, p => (floorAt x p, p)
  | more + 1, p =>
    match onGrid? x p with
    | some c => (c, p)
    | none => search x more (p - 1)

/-- Takes up to `most` zeros off the end of a decimal. -/
def dropZeros : Nat → Nat → Int → Nat × Int
  | 0, c, p => (c, p)
  | most + 1, c, p => if c ≠ 0 ∧ c % 10 = 0 then dropZeros most (c / 10) (p + 1) else (c, p)

/-- The digits and the power of ten of the shortest decimal that reads back as a magnitude other
than zero. -/
def shortest (x : Binary64) : Nat × Int :=
  let (c, p) := search x 17 (log10 x)
  dropZeros 17 c p

end TradeLedger.Binary64

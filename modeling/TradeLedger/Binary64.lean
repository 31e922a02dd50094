/-
Finite binary64 numbers as exact values `significand * 2 ^ exponent` with a sign, and the rounding
of products and quotients to the nearest of them.
-/
import TradeLedger.Rounding

namespace TradeLedger

-- powers are those of the numbers themselves, whatever algebra is imported
attribute [local instance (high)] instPowNat

/-- The value `significand * 2 ^ exponent`, or its negative. Zero keeps its sign. -/
structure Binary64 where
  negative : Bool
  significand : Nat
  exponent : Int
  deriving DecidableEq, Repr

namespace Binary64

/-- The least exponent: that of the numbers next to zero. -/
def leastExponent : Int := -1074

/-- The greatest exponent of a significand of 53 bits. -/
def greatestExponent : Int := 971

def zero : Binary64 := ⟨false, 0, leastExponent⟩

/-- The greatest `e` with `2 ^ e ≤ n / d`. -/
def log2Ratio (n d : Nat) : Int :=
  let e : Int := n.log2 - d.log2
  if d * 2 ^ e.toNat ≤ n * 2 ^ (-e).toNat then e else e - 1

/-- The number nearest to `n / d`, a tie to the even significand; none if it is out of range. -/
def nearest (n d : Nat) : Option Binary64 :=
  if n = 0 then some zero
  else
    let q := max (log2Ratio n d - 52) leastExponent
    let m := roundHalfEven (n * 2 ^ (-q).toNat) (d * 2 ^ q.toNat)
    let (m, q) := if m = 2 ^ (53 : Nat) then (2 ^ (52 : Nat), q + 1) else (m, q)
    if greatestExponent < q then none else some ⟨false, m, q⟩

def isZero (x : Binary64) : Bool := x.significand = 0

def neg (x : Binary64) : Binary64 := { x with negative := !x.negative }

/-- The product of two magnitudes, rounded. -/
def mul (x y : Binary64) : Option Binary64 :=
  let e := x.exponent + y.exponent
  nearest (x.significand * y.significand * 2 ^ e.toNat) (2 ^ (-e).toNat)

/-- The quotient of two magnitudes, rounded. -/
def div (x y : Binary64) : Option Binary64 :=
  let e := x.exponent - y.exponent
  nearest (x.significand * 2 ^ e.toNat) (y.significand * 2 ^ (-e).toNat)

end Binary64

end TradeLedger

/-
Lengths of time, counted in nanoseconds and shown in the largest unit that gives a whole part, with
no more fraction digits than are needed.
-/
import TradeLedger.Bytes

namespace TradeLedger

-- powers are those of the numbers themselves, whatever algebra is imported
attribute [local instance (high)] instPowNat

/-- A length of time. -/
structure Duration where
  nanoseconds : Nat
  deriving DecidableEq, Repr

namespace Duration

def ofMillis (n : Nat) : Duration := ⟨n * 1000000⟩

def millis (d : Duration) : Nat := d.nanoseconds / 1000000

/-- The digits of a fraction with denominator `10 ^ places`, without zeros at the end. -/
def fractionDigits (places n : Nat) : List Char :=
  let ds := Nat.toDigits 10 n
  ((List.replicate (places - ds.length) '0' ++ ds).reverse.dropWhile (· = '0')).reverse

/-- A number of units, each of `10 ^ places` nanoseconds. -/
def inUnits (d : Duration) (places : Nat) (unit : String) : String :=
  let whole := toString (d.nanoseconds / 10 ^ places)
  match fractionDigits places (d.nanoseconds % 10 ^ places) with
  | [] => whole ++ unit
  | ds => whole ++ "." ++ String.ofList ds ++ unit

def text (d : Duration) : String :=
  if 10 ^ (9 : Nat) ≤ d.nanoseconds then d.inUnits 9 "s"
  else if 10 ^ (6 : Nat) ≤ d.nanoseconds then d.inUnits 6 "ms"
  else if 10 ^ (3 : Nat) ≤ d.nanoseconds then d.inUnits 3 "µs"
  else d.inUnits 0 "ns"

end Duration

end TradeLedger

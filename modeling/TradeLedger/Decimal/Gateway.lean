/-
The gateway through which every figure passes on its way into the ledger. A figure is written in
decimal and measured: its measure fixes the number of fraction digits, to which it is rounded half
to even, and the range. Binary floating point is refused, never rounded.
-/
import TradeLedger.Decimal.Reader
import TradeLedger.Json

namespace TradeLedger

-- powers are those of the numbers themselves, whatever algebra is imported
attribute [local instance (high)] instPowNat

/-! ## Figures and measures -/

/-- A number as a caller gave it. -/
inductive Figure where
  /-- Decimal text. -/
  | text (s : String)
  | integer (i : Int)
  /-- A binary floating point number. Its value does not matter. -/
  | float
  deriving DecidableEq, Repr

namespace Figure

/-- A JSON text is decimal text, a JSON number an integer or floating point. -/
def ofJson? : Json → Option Figure
  | .text s => some (.text s)
  | .integer i => some (.integer i)
  | .real _ => some .float
  | _ => none

end Figure

/-- What a figure measures. -/
inductive Measure where
  | price
  | quantity
  /-- How sure a model is, from zero to one. -/
  | confidence
  | currency
  deriving DecidableEq, Repr

namespace Measure

/-- How many digits a figure has at most. -/
def precision : Measure → Nat
  | .price | .quantity | .currency => 20
  | .confidence => 5

/-- How many of them are fraction digits. -/
def scale : Measure → Nat
  | .price => 10
  | .quantity => 8
  | .confidence => 4
  | .currency => 2

theorem scale_le (m : Measure) : m.scale ≤ 28 := by cases m <;> decide

end Measure

/-! ## Rejections -/

/-- Why a figure is not let in. -/
inductive Rejection where
  | float
  | notPlain (text : String)
  | excess (text : String) (cause : Decimal.Excess)
  /-- More digits before the point than the measure has. -/
  | tooLarge (text : String) (digits : Nat)
  | notPositive (d : Decimal)
  | outsideUnit (d : Decimal)
  deriving DecidableEq

namespace Rejection

/-- What was wrong, for every rejection but that of floating point. -/
def reason : Rejection → String
  | .float => "binary floating point"
  | .notPlain text => s!"`{text}` is not plain decimal text"
  | .excess text cause => s!"`{text}`: {cause.message}"
  | .tooLarge text digits => s!"`{text}` exceeds {digits} integer digits"
  | .notPositive d => s!"{d.text} must be greater than zero"
  | .outsideUnit d => s!"{d.text} is outside [0, 1]"

end Rejection

/-! ## Admission -/

namespace Measure

/-- Prices and quantities are positive, and a confidence lies between zero and one. -/
def checkRange (m : Measure) (d : Decimal) : Except Rejection Decimal :=
  match m with
  | .price | .quantity =>
    if d.negative ∨ d.coefficient = 0 then .error (.notPositive d) else .ok d
  | .confidence =>
    if d.negative ∨ 10 ^ d.scale < d.coefficient then .error (.outsideUnit d) else .ok d
  | .currency => .ok d

/-- Reads decimal text at the scale of the measure. -/
def acceptText (m : Measure) (text : String) : Except Rejection Decimal := do
  let some plain := Decimal.Plain.ofChars? text.toList | .error (.notPlain text)
  let d ←
    match Decimal.ofPlain (plain.compact m.scale) with
    | .ok d => .ok d
    | .error cause => .error (.excess text cause)
  let d := ((d.rounded m.scale).extended m.scale m.scale_le).unsignedZero
  let digits := m.precision - m.scale
  if 10 ^ (digits + d.scale) ≤ d.coefficient then .error (.tooLarge text digits)
  m.checkRange d

/-- An integer is admitted as its decimal text would be. -/
def accept (m : Measure) : Figure → Except Rejection Decimal
  | .text s => m.acceptText s
  | .integer i => m.acceptText (String.ofList (Json.integerChars i))
  | .float => .error .float

end Measure

end TradeLedger

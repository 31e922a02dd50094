/-
Numbers as text: integers within limits, and the spelling of floating point numbers.

Digits are read from the left. Whatever comes first counts: a character that is no digit, or the
digit with which the number leaves its limit.
-/
namespace TradeLedger.Text.Numeral

-- powers are those of the numbers themselves, whatever algebra is imported
attribute [local instance (high)] instPowNat

/-- Why a text is no number within the limits. -/
inductive Fault where
  | empty
  | invalidDigit
  | tooLarge
  deriving DecidableEq, Repr

namespace Fault

def message : Fault → String
  | .empty => "cannot parse integer from empty string"
  | .invalidDigit => "invalid digit found in string"
  | .tooLarge => "number too large to fit in target type"

end Fault

/-- Reads on behind the digits of `n`. -/
def digits (limit n : Nat) : List Char → Except Fault Nat
  | [] => .ok n
  | c :: rest =>
    if c.isDigit then
      let next := 10 * n + (c.toNat - 48)
      if next < limit then digits limit next rest else .error .tooLarge
    else .error .invalidDigit

/-- Digits without a sign, and at least one. -/
def unsigned (limit : Nat) (cs : List Char) : Except Fault Nat :=
  if cs = [] then .error .invalidDigit else digits limit 0 cs

/-- A number below a limit. A plus sign may precede it. -/
def natural (limit : Nat) (s : String) : Except Fault Nat :=
  match s.toList with
  | [] => .error .empty
  | '+' :: cs => unsigned limit cs
  | cs => unsigned limit cs

/-- An integer of so many bits, one of them for the sign. -/
def integer? (bits : Nat) (s : String) : Option Int :=
  let limit := 2 ^ (bits - 1)
  match s.toList with
  | '-' :: cs => ((unsigned (limit + 1) cs).toOption).map fun n => -(n : Int)
  | '+' :: cs => ((unsigned limit cs).toOption).map fun n => (n : Int)
  | cs => ((unsigned limit cs).toOption).map fun n => (n : Int)

/-! ## Floating point -/

def unsign : List Char → List Char
  | '-' :: cs => cs
  | '+' :: cs => cs
  | cs => cs

/-- Nothing, or an exponent mark and an integer. -/
def isPower : List Char → Bool
  | [] => true
  | c :: rest =>
    let ds := unsign rest
    (c = 'e' || c = 'E') && !ds.isEmpty && ds.all Char.isDigit

/-- Whether a text spells a floating point number: digits with a point among them or at either end,
perhaps with an exponent, or a word for infinity or for no number. -/
def isFloat (s : String) : Bool :=
  let cs := unsign s.toList
  let word := String.ofList (cs.map Char.toLower)
  if word = "inf" || word = "infinity" || word = "nan" then true
  else
    let whole := cs.takeWhile Char.isDigit
    match cs.dropWhile Char.isDigit with
    | '.' :: rest =>
      let fraction := rest.takeWhile Char.isDigit
      !(whole.isEmpty && fraction.isEmpty) && isPower (rest.dropWhile Char.isDigit)
    | rest => !whole.isEmpty && isPower rest

end TradeLedger.Text.Numeral

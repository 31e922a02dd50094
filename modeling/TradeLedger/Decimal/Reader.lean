/-
Two readers of decimal text.

The strict one takes digits with an optional fraction and loses nothing. The lenient one reads what
is stored: a sign, underscores between digits, a point without digits on one side, and a power of
ten. Where a fraction has more digits than fit, the first that does not fit decides how it rounds, a
half away from zero, and the value of those after it does not matter. Behind the 28th digit of the
fraction of a small number an underscore takes the place of that digit, and counts as a zero.
-/
import TradeLedger.Decimal

namespace TradeLedger.Decimal

-- powers are those of the numbers themselves, whatever algebra is imported
attribute [local instance (high)] instPowNat

/-! ## The strict reader -/

/-- Plain decimal text: a sign, digits, and the digits of the fraction if there is one. -/
structure Plain where
  negative : Bool
  whole : List Char
  fraction : List Char
  deriving DecidableEq, Repr

namespace Plain

def isDigits (cs : List Char) : Bool := !cs.isEmpty && cs.all Char.isDigit

/-- Text of digits, with at most a minus sign in front and at most one point between digits. -/
def ofChars? (cs : List Char) : Option Plain :=
  let (negative, cs) :=
    match cs with
    | '-' :: rest => (true, rest)
    | cs => (false, cs)
  let whole := cs.takeWhile (· ≠ '.')
  match cs.dropWhile (· ≠ '.') with
  | [] => if isDigits whole then some ⟨negative, whole, []⟩ else none
  | _ :: fraction =>
    if isDigits whole && isDigits fraction then some ⟨negative, whole, fraction⟩ else none

/-- The same text without leading zeros, and with a fraction of at most `scale + 2` digits. When
digits are dropped the last one kept tells whether any of them was not zero, so that rounding to
`scale` digits gives the same as before. -/
def compact (p : Plain) (scale : Nat) : Plain :=
  let whole := p.whole.dropWhile (· = '0')
  let kept := p.fraction.take (scale + 1)
  let dropped := p.fraction.drop (scale + 1)
  { p with
    whole := if whole = [] then ['0'] else whole
    fraction :=
      if p.fraction.length ≤ scale + 2 then p.fraction
      else kept ++ [if dropped.any (· ≠ '0') then '1' else '0'] }

end Plain

/-- Why plain text is no decimal. -/
inductive Excess where
  /-- The digits before the point do not fit 96 bits. -/
  | digits
  /-- The digits before the point fit, with those after it they do not. -/
  | precision
  deriving DecidableEq, Repr

namespace Excess

def message : Excess → String
  | .digits => "Invalid decimal: overflow from too many digits"
  | .precision => "Number has a high precision that can not be represented."

end Excess

/-- The decimal that has exactly these digits. Zero has no sign. -/
def ofPlain (p : Plain) : Except Excess Decimal :=
  if 2 ^ (96 : Nat) ≤ Nat.ofDigitChars 10 p.whole 0 then .error .digits
  else
    match ofParts? p.negative (Nat.ofDigitChars 10 (p.whole ++ p.fraction) 0) p.fraction.length with
    | some d => .ok d.unsignedZero
    | none => .error .precision

/-! ## The lenient reader -/

/-- Rounds the number `c` with `k` fraction digits by the digit `d` that follows them. If that needs
one bit more, the last digit makes way. -/
def roundBy (c k d : Nat) : Option (Nat × Nat) :=
  if d < 5 then some (c, k)
  else if c + 1 < 2 ^ (96 : Nat) then some (c + 1, k)
  else if k = 0 then none
  else some ((c + 5) / 10, k - 1)

/-- What may follow the last digit that counts: digits and underscores. -/
def isSurplus (cs : List Char) : Bool := cs.all fun c => c.isDigit || c = '_'

/-- Numbers below this one are held in one word of 64 bits while they are read: the next digit keeps
them in the word, with room to spare. -/
def wordBound : Nat := (2 ^ (64 : Nat) - 1) / 10 - 255

/-- Reads on behind `c`, which has `k` fraction digits. `point` tells whether the point was read,
`seen` whether any digit was. An underscore behind the 28th fraction digit is the digit zero if the
number before that digit was held in one word, and separates digits if it was not. -/
def readDigits (c k : Nat) (point seen : Bool) : List Char → Option (Nat × Nat)
  | [] => if seen then some (c, k) else none
  | x :: rest =>
    if x.isDigit then
      let d := x.toNat - 48
      let next := 10 * c + d
      if next < 2 ^ (96 : Nat) && !(point && k == 28) then
        readDigits next (if point then k + 1 else k) point true rest
      else if point && isSurplus rest then roundBy c k d
      else none
    else if x = '.' then if point then none else readDigits c k true seen rest
    else if x = '_' then
      if !seen then none
      else if point && k == 28 && c / 10 < wordBound then
        if isSurplus rest then roundBy c k 0 else none
      else readDigits c k point seen rest
    else none

/-- Reads a decimal without a power of ten. -/
def ofFixed? (cs : List Char) : Option Decimal := do
  let (negative, cs) :=
    match cs with
    | '-' :: rest => (true, rest)
    | '+' :: rest => (false, rest)
    | cs => (false, cs)
  let (c, k) ← readDigits 0 0 false false cs
  let d ← ofParts? negative c k
  return d.unsignedZero

def isExponentMark (c : Char) : Bool := c = 'e' || c = 'E'

/-- The digits after an exponent mark, whether or not a plus sign precedes them. -/
def exponent? (cs : List Char) : Option Nat :=
  let ds :=
    match cs with
    | '+' :: rest => rest
    | cs => cs
  if Plain.isDigits ds then some (Nat.ofDigitChars 10 ds 0) else none

/-- Divides by `10 ^ e`. Digits that would go past the 28th are rounded off before. -/
def shiftDown? (d : Decimal) (e : Nat) : Option Decimal :=
  if 28 < e then none
  else if 28 < d.scale + e then
    let d := d.cut (28 - e)
    ofParts? d.negative d.coefficient 28
  else ofParts? d.negative d.coefficient (d.scale + e)

/-- Multiplies by `10 ^ e`. What leaves no fraction digits gives an integer, which must fit. -/
def shiftUp? (d : Decimal) (e : Nat) : Option Decimal :=
  if e ≤ d.scale then ofParts? d.negative d.coefficient (d.scale - e)
  else if 28 < e then none
  else ofParts? d.negative (d.coefficient * 10 ^ (e - d.scale)) 0

/-- Reads a decimal with a power of ten. -/
def ofScientific? (cs : List Char) : Option Decimal := do
  let d ← ofFixed? (cs.takeWhile (!isExponentMark ·))
  match cs.dropWhile (!isExponentMark ·) with
  | [] => none
  | _ :: '-' :: rest => shiftDown? d (← exponent? rest)
  | _ :: rest => shiftUp? d (← exponent? rest)

/-- Reads a stored decimal. -/
def ofText? (s : String) : Option Decimal :=
  (ofFixed? s.toList).orElse fun _ => ofScientific? s.toList

end TradeLedger.Decimal

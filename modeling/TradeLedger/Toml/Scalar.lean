/-
Scalars of TOML that are written without quotes: truth values, integers, floating point numbers,
dates and times. They are told apart by all of their characters.
-/
import TradeLedger.Binary64
import TradeLedger.Toml

namespace TradeLedger.Toml.Scalar

-- powers are those of the numbers themselves, whatever algebra is imported
attribute [local instance (high)] instPowNat

/-- A character that such a scalar may hold. -/
def isMember (c : Char) : Bool :=
  c.isAlphanum || c = '+' || c = '-' || c = '_' || c = '.' || c = ':'

/-! ## Numbers -/

/-- The digits without the underscores, each of which must stand between two digits. -/
def plainDigits (isDigit : Char → Bool) : List Char → Option (List Char)
  | [] => none
  | [c] => if isDigit c then some [c] else none
  | c :: '_' :: rest =>
    if isDigit c then (plainDigits isDigit rest).map (c :: ·) else none
  | c :: rest => if isDigit c then (plainDigits isDigit rest).map (c :: ·) else none

/-- A sign, if there is one. -/
def signed : List Char → Bool × List Char
  | '-' :: cs => (true, cs)
  | '+' :: cs => (false, cs)
  | cs => (false, cs)

/-- Decimal digits without a zero in front. -/
def decimalDigits? (cs : List Char) : Option (List Char) := do
  let ds ← plainDigits Char.isDigit cs
  if ds.length = 1 ∨ ds.head? ≠ some '0' then some ds else none

def digitValue (c : Char) : Nat :=
  if c.isDigit then c.toNat - 48 else c.toLower.toNat - 87

/-- Digits of a base, after its mark. -/
def inBase? (base : Nat) (isDigit : Char → Bool) (cs : List Char) : Option Int := do
  let ds ← plainDigits isDigit cs
  return Int.ofNat (ds.foldl (fun n c => base * n + digitValue c) 0)

def isHexDigit (c : Char) : Bool := c.isDigit || ('a' ≤ c && c ≤ 'f') || ('A' ≤ c && c ≤ 'F')

def integer? (cs : List Char) : Option Int :=
  match cs with
  | '0' :: 'x' :: cs => inBase? 16 isHexDigit cs
  | '0' :: 'o' :: cs => inBase? 8 (fun c => '0' ≤ c && c ≤ '7') cs
  | '0' :: 'b' :: cs => inBase? 2 (fun c => c = '0' || c = '1') cs
  | cs => do
    let (negative, cs) := signed cs
    let n := Nat.ofDigitChars 10 (← decimalDigits? cs) 0
    return if negative then -(n : Int) else n

/-- Whether `c * 10 ^ e` is small enough for a floating point number. -/
def inRange (c : Nat) (e : Int) : Bool :=
  if c = 0 then true
  else if 400 < e then false
  else if e < -100000 then true
  else (Binary64.nearest (c * 10 ^ e.toNat) (10 ^ (-e).toNat)).isSome

def isExponentMark (c : Char) : Bool := c = 'e' || c = 'E'

/-- The exponent after its mark, which may have zeros in front; nought if there is no mark. -/
def exponent? : List Char → Option Int
  | [] => some 0
  | _ :: cs => do
    let (negative, cs) := signed cs
    let n := Nat.ofDigitChars 10 (← plainDigits Char.isDigit cs) 0
    return if negative then -(n : Int) else n

/-- Whether this is a floating point number, infinity, or no number at all. One that is too large
is not, unless it is negative. -/
def isFloat (cs : List Char) : Bool :=
  let (negative, cs) := signed cs
  if cs = ['i', 'n', 'f'] || cs = ['n', 'a', 'n'] then true
  else
    let whole := cs.takeWhile fun c => c ≠ '.' && !isExponentMark c
    let rest := cs.drop whole.length
    let fraction :=
      match rest with
      | '.' :: rest => plainDigits Char.isDigit (rest.takeWhile (!isExponentMark ·))
      | _ => some []
    match decimalDigits? whole, fraction, exponent? (rest.dropWhile (!isExponentMark ·)) with
    | some ds, some fs, some e =>
      !rest.isEmpty &&
        (negative || inRange (Nat.ofDigitChars 10 (ds ++ fs) 0) (e - fs.length))
    | _, _, _ => false

/-! ## Dates and times -/

/-- A number of so many digits. -/
def number? (size : Nat) (cs : List Char) : Option (Nat × List Char) :=
  let ds := cs.take size
  if ds.length = size ∧ ds.all Char.isDigit then some (Nat.ofDigitChars 10 ds 0, cs.drop size)
  else none

def daysIn (year month : Nat) : Nat :=
  if month = 2 then
    if (year % 4 = 0 ∧ year % 100 ≠ 0) ∨ year % 400 = 0 then 29 else 28
  else if month = 4 ∨ month = 6 ∨ month = 9 ∨ month = 11 then 30
  else 31

/-- What follows a character. -/
def after? (c : Char) : List Char → Option (List Char)
  | d :: cs => if c = d then some cs else none
  | [] => none

/-- What follows a date. -/
def date? (cs : List Char) : Option (List Char) := do
  let (year, cs) ← number? 4 cs
  let (month, cs) ← number? 2 (← after? '-' cs)
  let (day, cs) ← number? 2 (← after? '-' cs)
  if 1 ≤ month ∧ month ≤ 12 ∧ 1 ≤ day ∧ day ≤ daysIn year month then some cs else none

/-- What follows an hour and a minute. -/
def hourAndMinute? (cs : List Char) : Option (List Char) := do
  let (hour, cs) ← number? 2 cs
  let (minute, cs) ← number? 2 (← after? ':' cs)
  if hour ≤ 23 ∧ minute ≤ 59 then some cs else none

/-- What follows a time, whose seconds may have a fraction. -/
def time? (cs : List Char) : Option (List Char) := do
  let (second, cs) ← number? 2 (← after? ':' (← hourAndMinute? cs))
  if 60 < second then none
  match cs with
  | '.' :: cs =>
    if (cs.takeWhile Char.isDigit).isEmpty then none else some (cs.dropWhile Char.isDigit)
  | cs => some cs

/-- Nothing, or how far the clock is from that of Greenwich. -/
def isOffset : List Char → Bool
  | [] => true
  | ['Z'] | ['z'] => true
  | '+' :: cs | '-' :: cs => hourAndMinute? cs = some []
  | _ => false

def isDate (cs : List Char) : Bool := date? cs = some []

def isTime (cs : List Char) : Bool := time? cs = some []

/-- Whether this is a time with or without an offset. -/
def isTimeOfDate (cs : List Char) : Bool :=
  match time? cs with
  | some rest => isOffset rest
  | none => false

def isDateWithTime (cs : List Char) : Bool :=
  match date? cs with
  | some ('T' :: rest) | some ('t' :: rest) => isTimeOfDate rest
  | _ => false

/-! ## All of them -/

/-- The scalar of these characters. -/
def ofChars? (cs : List Char) : Option Toml :=
  if cs = ['t', 'r', 'u', 'e'] then some (.boolean true)
  else if cs = ['f', 'a', 'l', 's', 'e'] then some (.boolean false)
  else if isDate cs || isTime cs || isDateWithTime cs then some .moment
  else if isFloat cs then some .float
  else do
    let i ← integer? cs
    if -(2 ^ (63 : Nat)) ≤ i ∧ i < 2 ^ (63 : Nat) then some (.integer i) else none

end TradeLedger.Toml.Scalar

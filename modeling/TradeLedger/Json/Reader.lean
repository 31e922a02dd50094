/-
Reading JSON text. Nesting is limited to 127 lists and objects, a key that comes twice keeps its
last value, and a text that spells half a surrogate pair is refused.

A number without point and exponent that fits 64 bits is an integer, `-0` excepted. Of any other
number the leading digits that fit 64 bits are rounded to binary64, then multiplied or divided by
the rounded power of ten, which rounds again; a number out of range is refused.
-/
import TradeLedger.Json

namespace TradeLedger.Json

-- powers are those of the numbers themselves, whatever algebra is imported
attribute [local instance (high)] instPowNat

/-! ## Blanks -/

def isSpace (c : Char) : Bool := c = ' ' || c = '\n' || c = '\t' || c = '\r'

def skip (cs : List Char) : List Char := cs.dropWhile isSpace

/-! ## Texts -/

/-- A piece of a text: a character, or a UTF-16 unit that was written as an escape. -/
inductive Piece where
  | char (c : Char)
  | unit (n : Nat)
  deriving DecidableEq, Repr

def hexValue? (c : Char) : Option Nat :=
  if '0' ≤ c && c ≤ '9' then some (c.toNat - 48)
  else if 'a' ≤ c && c ≤ 'f' then some (c.toNat - 87)
  else if 'A' ≤ c && c ≤ 'F' then some (c.toNat - 55)
  else none

/-- The unit of four hexadecimal digits. -/
def unit? (a b c d : Char) : Option Nat := do
  let a ← hexValue? a
  let b ← hexValue? b
  let c ← hexValue? c
  let d ← hexValue? d
  return ((a * 16 + b) * 16 + c) * 16 + d

/-- What a letter after a backslash stands for. -/
def escaped? : Char → Option Char
  | '"' => some '"'
  | '\\' => some '\\'
  | '/' => some '/'
  | 'b' => some '\x08'
  | 'f' => some '\x0c'
  | 'n' => some '\n'
  | 'r' => some '\r'
  | 't' => some '\t'
  | _ => none

/-- The pieces of a text up to its closing quote. Control characters must be escaped. -/
def pieces : List Char → Option (List Piece × List Char)
  | [] => none
  | '"' :: rest => some ([], rest)
  | '\\' :: 'u' :: a :: b :: c :: d :: rest => do
    let n ← unit? a b c d
    let (more, rest) ← pieces rest
    return (.unit n :: more, rest)
  | '\\' :: e :: rest => do
    let c ← escaped? e
    let (more, rest) ← pieces rest
    return (.char c :: more, rest)
  | c :: rest =>
    if c.toNat < 0x20 || c = '\\' then none
    else do
      let (more, rest) ← pieces rest
      return (.char c :: more, rest)

def isHigh (n : Nat) : Bool := 0xD800 ≤ n && n ≤ 0xDBFF

def isLow (n : Nat) : Bool := 0xDC00 ≤ n && n ≤ 0xDFFF

/-- The characters that pieces spell. A high unit needs a low one right after it. -/
def join : List Piece → Option (List Char)
  | [] => some []
  | .char c :: rest => (join rest).map (c :: ·)
  | .unit h :: rest =>
    if isHigh h then
      match rest with
      | .unit l :: rest =>
        if isLow l then
          (join rest).map (Char.ofNat (0x10000 + (h - 0xD800) * 0x400 + (l - 0xDC00)) :: ·)
        else none
      | _ => none
    else if isLow h then none
    else (join rest).map (Char.ofNat h :: ·)

/-- A text after its opening quote. -/
def readText (cs : List Char) : Option (String × List Char) := do
  let (ps, rest) ← pieces cs
  let chars ← join ps
  return (String.ofList chars, rest)

/-! ## Numbers -/

/-- A number as it is written: digits before the point, digits after it, and the power of ten. -/
structure Numeral where
  negative : Bool
  whole : List Char
  fraction : Option (List Char)
  exponent : Option Int
  deriving DecidableEq, Repr

/-- The digits in front, and what follows them. -/
def digits (cs : List Char) : List Char × List Char :=
  (cs.takeWhile Char.isDigit, cs.dropWhile Char.isDigit)

/-- The digits after a point. -/
def readFraction : List Char → Option (Option (List Char) × List Char)
  | '.' :: rest =>
    match digits rest with
    | ([], _) => none
    | (ds, rest) => some (some ds, rest)
  | cs => some (none, cs)

/-- The signed digits after an `e`. -/
def readExponent : List Char → Option (Option Int × List Char)
  | c :: rest =>
    if c = 'e' || c = 'E' then
      let (negative, rest) :=
        match rest with
        | '-' :: rest => (true, rest)
        | '+' :: rest => (false, rest)
        | rest => (false, rest)
      match digits rest with
      | ([], _) => none
      | (ds, rest) =>
        let e : Int := Nat.ofDigitChars 10 ds 0
        some (some (if negative then -e else e), rest)
    else some (none, c :: rest)
  | [] => some (none, [])

/-- A numeral. Only zero itself starts with a zero. -/
def readNumeral (cs : List Char) : Option (Numeral × List Char) := do
  let (negative, cs) :=
    match cs with
    | '-' :: rest => (true, rest)
    | cs => (false, cs)
  let (whole, cs) := digits cs
  if whole = [] ∨ whole.head? = some '0' ∧ whole.length ≠ 1 then none
  let (fraction, cs) ← readFraction cs
  let (exponent, cs) ← readExponent cs
  return (⟨negative, whole, fraction, exponent⟩, cs)

/-- Takes digits in as long as the number stays below `2 ^ 64`; the digits left out come back. -/
def takeIn : Nat → List Char → Nat × List Char
  | n, [] => (n, [])
  | n, d :: rest =>
    let next := 10 * n + (d.toNat - 48)
    if next < 2 ^ (64 : Nat) then takeIn next rest else (n, d :: rest)

def powerOfTen? (n : Nat) : Option Binary64 := Binary64.nearest (10 ^ n) 1

/-- The magnitude `n * 10 ^ e`, rounded at each step. -/
def scaled? (n : Nat) (e : Int) : Option Binary64 := do
  let x ← Binary64.nearest n 1
  if x.isZero then return Binary64.zero
  if 308 < e then none
  else if 0 ≤ e then x.mul (← powerOfTen? e.toNat)
  else if -308 ≤ e then x.div (← powerOfTen? (-e).toNat)
  else if -616 ≤ e then
    let y ← x.div (← powerOfTen? 308)
    y.div (← powerOfTen? (-e - 308).toNat)
  else return Binary64.zero

/-- The number a numeral denotes. -/
def ofNumeral? (n : Numeral) : Option Json :=
  let (whole, left) := takeIn 0 n.whole
  if left = [] ∧ n.fraction = none ∧ n.exponent = none ∧
      (if n.negative then 0 < whole ∧ whole ≤ 2 ^ (63 : Nat) else True) then
    some (.integer (if n.negative then -whole else whole))
  else do
    let fraction := n.fraction.getD []
    let (number, unused) := takeIn whole fraction
    let places : Int := (fraction.length : Int) - unused.length
    let x ← scaled? number ((left.length : Int) - places + n.exponent.getD 0)
    return .real (if n.negative then x.neg else x)

/-! ## Documents -/

/-- The items of a list after its opening bracket, at most `most` of them. -/
def readItems (item : List Char → Option (Json × List Char)) :
    (most : Nat) → List Char → Option (List Json × List Char)
  | 0, _ => none
  | most + 1, cs => do
    let (x, cs) ← item cs
    match skip cs with
    | ']' :: rest => return ([x], rest)
    | ',' :: rest =>
      let (more, rest) ← readItems item most rest
      return (x :: more, rest)
    | _ => none

/-- The members of an object after its opening brace, at most `most` of them. -/
def readMembers (item : List Char → Option (Json × List Char)) :
    (most : Nat) → List Char → Option (List (String × Json) × List Char)
  | 0, _ => none
  | most + 1, cs => do
    match skip cs with
    | '"' :: rest =>
      let (k, rest) ← readText rest
      match skip rest with
      | ':' :: rest =>
        let (v, rest) ← item rest
        match skip rest with
        | '\x7d' :: rest => return ([(k, v)], rest)
        | ',' :: rest =>
          let (more, rest) ← readMembers item most rest
          return ((k, v) :: more, rest)
        | _ => none
      | _ => none
    | _ => none

/-- A document with at most `depth` levels of nesting. -/
def readValue (depth : Nat) (cs : List Char) : Option (Json × List Char) :=
  match skip cs with
  | 'n' :: 'u' :: 'l' :: 'l' :: rest => some (.null, rest)
  | 't' :: 'r' :: 'u' :: 'e' :: rest => some (.bool true, rest)
  | 'f' :: 'a' :: 'l' :: 's' :: 'e' :: rest => some (.bool false, rest)
  | '"' :: rest => do
    let (s, rest) ← readText rest
    return (.text s, rest)
  | '[' :: rest =>
    match depth with
    | 0 => none
    | depth + 1 =>
      match skip rest with
      | ']' :: rest => some (.list [], rest)
      | rest => do
        let (items, rest) ← readItems (fun cs => readValue depth cs) rest.length rest
        return (.list items, rest)
  | '\x7b' :: rest =>
    match depth with
    | 0 => none
    | depth + 1 =>
      match skip rest with
      | '\x7d' :: rest => some (.object [], rest)
      | rest => do
        let (members, rest) ← readMembers (fun cs => readValue depth cs) rest.length rest
        return (ofMembers members, rest)
  | cs => do
    let (n, rest) ← readNumeral cs
    let j ← ofNumeral? n
    return (j, rest)
termination_by structural depth

/-- How many lists and objects may stand inside each other. -/
def maxDepth : Nat := 127

/-- The document a text spells, blanks around it allowed. -/
def parse? (s : String) : Option Json := do
  let (j, rest) ← readValue maxDepth s.toList
  match skip rest with
  | [] => some j
  | _ => none

end TradeLedger.Json

/-
The canonical text of a document: no blanks, members in the order of their keys, and one spelling
for each character and each number.
-/
import TradeLedger.Json
import TradeLedger.Binary64.Shortest

namespace TradeLedger.Json

/-! ## Numbers -/

/-- The decimal `c * 10 ^ p`, `c` not a multiple of ten. From a hundred-thousandth up to `10 ^ 16`
it is written out, with at least one digit after the point; otherwise one digit stands before the
point, and the power of ten has a sign. -/
def decimalText (c : Nat) (p : Int) : List Char :=
  let ds := Nat.toDigits 10 c
  let e := p + ds.length - 1
  if e < -5 ∨ 16 ≤ e then
    let fraction := if ds.length = 1 then [] else '.' :: ds.drop 1
    let power := (if e < 0 then '-' else '+') :: Nat.toDigits 10 e.natAbs
    ds.take 1 ++ fraction ++ 'e' :: power
  else if e < 0 then
    '0' :: '.' :: List.replicate (-e - 1).toNat '0' ++ ds
  else
    let whole := e.toNat + 1
    if ds.length ≤ whole then ds ++ List.replicate (whole - ds.length) '0' ++ ['.', '0']
    else ds.take whole ++ '.' :: ds.drop whole

def realText (x : Binary64) : List Char :=
  let magnitude :=
    if x.isZero then ['0', '.', '0']
    else
      let (c, p) := x.shortest
      decimalText c p
  if x.negative then '-' :: magnitude else magnitude

/-! ## Texts -/

/-- A quote, a backslash and the control characters are escaped, nothing else is. -/
def escape (c : Char) : List Char :=
  if c = '"' then ['\\', '"']
  else if c = '\\' then ['\\', '\\']
  else if c = '\x08' then ['\\', 'b']
  else if c = '\x0c' then ['\\', 'f']
  else if c = '\n' then ['\\', 'n']
  else if c = '\r' then ['\\', 'r']
  else if c = '\t' then ['\\', 't']
  else if c.toNat < 0x20 then
    ['\\', 'u', '0', '0', Nat.digitChar (c.toNat / 16), Nat.digitChar (c.toNat % 16)]
  else [c]

def quoted (s : String) : List Char := '"' :: s.toList.flatMap escape ++ ['"']

/-! ## Documents -/

mutual

/-- The characters of the canonical text. -/
def print : Json → List Char
  | .null => ['n', 'u', 'l', 'l']
  | .bool true => ['t', 'r', 'u', 'e']
  | .bool false => ['f', 'a', 'l', 's', 'e']
  | .integer i => integerChars i
  | .real x => realText x
  | .text s => quoted s
  | .list items => '[' :: printItems items ++ [']']
  | .object members => '\x7b' :: printMembers members ++ ['\x7d']

/-- Items with a comma between each two. -/
def printItems : List Json → List Char
  | [] => []
  | [x] => print x
  | x :: y :: rest => print x ++ ',' :: printItems (y :: rest)

/-- Members with a comma between each two. -/
def printMembers : List (String × Json) → List Char
  | [] => []
  | [(k, v)] => quoted k ++ ':' :: print v
  | (k, v) :: m :: rest => quoted k ++ ':' :: print v ++ ',' :: printMembers (m :: rest)

end

def canonical (j : Json) : String := String.ofList (print j)

end TradeLedger.Json

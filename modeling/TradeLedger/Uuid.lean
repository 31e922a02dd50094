/-
Identifiers of 16 octets. They are written as 32 lower-case digits with hyphens after the 8th,
12th, 16th and 20th, and read in that form, without hyphens, in braces, or as a URN.
-/
import TradeLedger.Hex

namespace TradeLedger

/-- An identifier of 16 octets. -/
@[ext] structure Uuid where
  bytes : Bytes
  length_bytes : bytes.length = 16 := by decide
  deriving DecidableEq

namespace Uuid

def ofBytes? (b : Bytes) : Option Uuid :=
  if h : b.length = 16 then some ⟨b, h⟩ else none

theorem ofBytes?_bytes (u : Uuid) : ofBytes? u.bytes = some u := by
  simp [ofBytes?, u.length_bytes]

/-! ## Text -/

/-- The groups of digits, with a hyphen between each two. -/
def hyphenated (digits : List Char) : List Char :=
  digits.take 8 ++ '-' :: (digits.drop 8).take 4 ++ '-' :: (digits.drop 12).take 4 ++
    '-' :: (digits.drop 16).take 4 ++ '-' :: digits.drop 20

def text (u : Uuid) : String := String.ofList (hyphenated (Hex.digits u.bytes))

/-- The digits of 36 characters that have a hyphen at each of the four places. -/
def groups? (cs : List Char) : Option (List Char) :=
  if cs.length = 36 ∧ cs[8]? = some '-' ∧ cs[13]? = some '-' ∧ cs[18]? = some '-' ∧
      cs[23]? = some '-' then
    some (cs.take 8 ++ (cs.drop 9).take 4 ++ (cs.drop 14).take 4 ++ (cs.drop 19).take 4 ++
      cs.drop 24)
  else none

/-- What precedes a hyphenated identifier that is written as a URN, in letters of either case. -/
def scheme : List Char := ['u', 'r', 'n', ':', 'u', 'u', 'i', 'd', ':']

/-- Braces are written by their code, so that no text holds one. -/
def openBrace : Char := Char.ofNat 0x7B

def closeBrace : Char := Char.ofNat 0x7D

/-- The 32 digits of any of the four spellings. -/
def digits? (cs : List Char) : Option (List Char) :=
  if cs.length = 32 then some cs
  else if cs.length = 36 then groups? cs
  else if cs.length = 38 then
    if cs.head? = some openBrace ∧ cs.getLast? = some closeBrace then groups? (cs.tail.dropLast)
    else none
  else if cs.length = 45 then
    if (cs.take 9).map Char.toLower = scheme then groups? (cs.drop 9) else none
  else none

def ofText? (s : String) : Option Uuid := do
  let digits ← digits? s.toList
  let octets ← Hex.ofDigits? digits
  ofBytes? octets

/-! ## Made identifiers -/

/-- An identifier that names what it was made for: a kind, and a number below `2 ^ 48`. -/
def made (kind : UInt8) (number : Nat) : Uuid :=
  ⟨[kind, 0, 0, 0, 0, 0, 0x70, 0, 0x80, 0] ++ (Bytes.littleEndian 6 number).reverse, by simp⟩

end Uuid

end TradeLedger

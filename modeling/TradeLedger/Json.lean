/-
JSON documents. The members of an object are kept in the order of the UTF-8 octets of their keys,
one member to a key, so that two documents are equal when they say the same.
-/
import TradeLedger.Binary64
import TradeLedger.Bytes

namespace TradeLedger

/-- A document. An integer is a number written without point and exponent that fits 64 bits, signed
or not; every other number is real. -/
inductive Json where
  | null
  | bool (b : Bool)
  | integer (i : Int)
  | real (x : Binary64)
  | text (s : String)
  | list (items : List Json)
  | object (members : List (String × Json))

namespace Json

/-- An integer in decimal. -/
def integerChars (i : Int) : List Char :=
  if i < 0 then '-' :: Nat.toDigits 10 i.natAbs else Nat.toDigits 10 i.natAbs

/-- Keys are ordered by their UTF-8 octets. -/
def keyBefore (k l : String) : Bool := decide (Bytes.ofText k < Bytes.ofText l)

/-- Puts a member where its key belongs, in place of a member of that key. -/
def put (k : String) (v : Json) : List (String × Json) → List (String × Json)
  | [] => [(k, v)]
  | (l, w) :: rest =>
    if k = l then (k, v) :: rest
    else if keyBefore k l then (k, v) :: (l, w) :: rest
    else (l, w) :: put k v rest

/-- The object of these members; of two with one key the later counts. -/
def ofMembers (members : List (String × Json)) : Json :=
  .object (members.foldl (fun sorted m => put m.1 m.2 sorted) [])

/-- The member of a key. Anything but an object has none, and a null member is none. -/
def get? (j : Json) (k : String) : Option Json :=
  match j with
  | .object members =>
    match members.find? (·.1 = k) with
    | some (_, .null) => none
    | some (_, v) => some v
    | none => none
  | _ => none

end Json

end TradeLedger

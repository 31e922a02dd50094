/-
Codecs: how values of a type are written as octets and read back from the front of a longer string.
A compound codec is put together from those of its parts, so that writing and reading agree on the
order by construction.

Numbers stand low octet first, lengths take eight octets and tags four. A text, an identifier and a
string of octets follow their length, a decimal is written as its text, and one octet says whether
an optional value is there.
-/
import TradeLedger.Codec.Damage
import TradeLedger.Decimal.Reader
import TradeLedger.Uuid

namespace TradeLedger

/-- A way to write values, and to read one from the front of octets, which also gives the octets
after it. -/
structure Codec (α : Type) where
  write : α → Bytes
  read : Bytes → Except Damage (α × Bytes)

namespace Codec

variable {α β : Type}

/-! ## Numbers -/

/-- Natural numbers below `256 ^ size`; of a larger one the high part is lost. -/
def natural (size : Nat) : Codec Nat where
  write n := Bytes.littleEndian size n
  read b := if b.length < size then .error .ended
    else .ok (Bytes.ofLittleEndian (b.take size), b.drop size)

/-- A codec for what stands one to one for the values of another. -/
def via (c : Codec α) (f : α → β) (g : β → α) : Codec β where
  write y := c.write (g y)
  read b := do
    let (x, rest) ← c.read b
    return (f x, rest)

/-- A codec for what some values of another stand for. -/
def refine (c : Codec α) (f : α → Except Damage β) (g : β → α) : Codec β where
  write y := c.write (g y)
  read b := do
    let (x, rest) ← c.read b
    let y ← f x
    return (y, rest)

def unsigned : Codec UInt64 := (natural 8).via UInt64.ofNat UInt64.toNat

def signed : Codec Int64 := unsigned.via UInt64.toInt64 Int64.toUInt64

/-! ## Tags -/

/-- The members of a list, by their place in it. -/
def oneOf [DecidableEq α] (all : List α) : Codec α :=
  (natural 4).refine
    (fun tag => match all[tag]? with
      | some x => .ok x
      | none => .error (.unknownTag tag all.length))
    (fun x => all.idxOf x)

def bool : Codec Bool :=
  (natural 1).refine
    (fun octet => match octet with
      | 0 => .ok false
      | 1 => .ok true
      | n => .error (.notBool n))
    (fun b => if b then 1 else 0)

/-! ## Strings of octets -/

/-- As many octets as their length says, or `damage` where there are fewer. -/
def counted (damage : Damage) : Codec Bytes where
  write b := (natural 8).write b.length ++ b
  read b := do
    let (length, rest) ← (natural 8).read b
    if rest.length < length then .error damage else return (rest.take length, rest.drop length)

/-- Any octets. -/
def octets : Codec Bytes := counted .ended

def text : Codec String :=
  (counted .endedInBlock).refine
    (fun b => match Bytes.toText? b with
      | some s => .ok s
      | none => .error (.notText (Text.Utf8.fault b)))
    Bytes.ofText

def uuid : Codec Uuid :=
  (counted .endedInBlock).refine
    (fun b => match Uuid.ofBytes? b with
      | some u => .ok u
      | none => .error (.notUuid b.length))
    Uuid.bytes

def decimal : Codec Decimal :=
  text.refine
    (fun s => match Decimal.ofText? s with
      | some d => .ok d
      | none => .error (.notDecimal s))
    Decimal.text

/-! ## Compounds -/

/-- One value after the other. -/
def both (c : Codec α) (d : Codec β) : Codec (α × β) where
  write p := c.write p.1 ++ d.write p.2
  read b := do
    let (x, rest) ← c.read b
    let (y, rest) ← d.read rest
    return ((x, y), rest)

/-- A value that need not be there. -/
def optional (c : Codec α) : Codec (Option α) where
  write
    | none => (natural 1).write 0
    | some x => (natural 1).write 1 ++ c.write x
  read b := do
    let (octet, rest) ← (natural 1).read b
    match octet with
    | 0 => return (none, rest)
    | 1 => do
      let (x, rest) ← c.read rest
      return (some x, rest)
    | n => .error (.notPresence n)

end Codec

end TradeLedger

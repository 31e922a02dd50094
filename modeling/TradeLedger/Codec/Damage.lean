/-
What is wrong with octets that do not read as a record.
-/
import TradeLedger.Text.Quoted
import TradeLedger.Text.Utf8

namespace TradeLedger

/-- Why octets cannot be read. -/
inductive Damage where
  /-- They end inside a number, a tag, a flag or a string of octets. -/
  | ended
  /-- They end inside a text or an identifier. -/
  | endedInBlock
  /-- A tag that counts past the last alternative. -/
  | unknownTag (tag count : Nat)
  /-- Neither of the two octets that say whether a value is there. -/
  | notPresence (octet : Nat)
  | notBool (octet : Nat)
  /-- An identifier of another length. -/
  | notUuid (length : Nat)
  | notText (fault : Text.Utf8.Fault)
  | notDecimal (text : String)
  deriving DecidableEq, Repr

namespace Damage

def message : Damage → String
  | .ended => "io error: unexpected end of file"
  | .endedInBlock => "io error: "
  | .unknownTag tag count =>
    s!"invalid value: integer `{tag}`, expected variant index 0 <= i < {count}"
  | .notPresence octet => s!"tag for enum is not valid, found {octet}"
  | .notBool octet => s!"invalid u8 while decoding bool, expected 0 or 1, found {octet}"
  | .notUuid length => s!"UUID parsing failed: invalid length: expected 16 bytes, found {length}"
  | .notText fault => s!"string is not valid utf8: {fault.message}"
  | .notDecimal text =>
    s!"invalid value: string {Text.quoted text}, expected a Decimal type representing " ++
      "a fixed-point number"

end Damage

end TradeLedger

/-
Digests: strings of exactly 32 octets, written as 64 hexadecimal digits.
-/
import TradeLedger.Hex

namespace TradeLedger

/-- A SHA-256 digest. -/
@[ext] structure Digest where
  bytes : Bytes
  length_bytes : bytes.length = 32 := by decide
  deriving DecidableEq

namespace Digest

/-- A digest of these octets, if there are 32 of them. -/
def ofBytes? (b : Bytes) : Option Digest :=
  if h : b.length = 32 then some ⟨b, h⟩ else none

def hex (d : Digest) : String := Hex.encode d.bytes

/-- Reads 64 hexadecimal digits of either case. -/
def ofHex? (s : String) : Option Digest := (Hex.decode? s).bind ofBytes?

/-- The digest of 32 zero octets, which stands for a digest not yet known. -/
def zero : Digest := ⟨List.replicate 32 0, by simp⟩

theorem ofBytes?_bytes (d : Digest) : ofBytes? d.bytes = some d := by
  simp [ofBytes?, d.length_bytes]

theorem ofHex?_hex (d : Digest) : ofHex? d.hex = some d := by
  simp [ofHex?, hex, Hex.decode?_encode, ofBytes?_bytes]

end Digest

end TradeLedger

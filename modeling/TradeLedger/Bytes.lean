/-
Strings of octets, the text they spell, and numbers of a fixed width with the low octet first.
Reading a number back gives the number modulo its width, and writing what was read gives the octets.
-/
namespace TradeLedger

-- powers are those of the numbers themselves, whatever algebra is imported
attribute [local instance (high)] instPowNat

/-- A string of octets. -/
abbrev Bytes := List UInt8

namespace Bytes

/-! ## Text -/

/-- The UTF-8 octets of a text. -/
def ofText (s : String) : Bytes := s.toByteArray.data.toList

/-- The text whose UTF-8 octets these are, if they are any text's. -/
def toText? (b : Bytes) : Option String :=
  let octets := ByteArray.mk b.toArray
  if h : octets.validateUTF8 = true then
    some (String.ofByteArray octets (ByteArray.validateUTF8_eq_true_iff.mp h))
  else none

theorem toText?_ofText (s : String) : toText? (ofText s) = some s := by
  have h : ByteArray.mk (ofText s).toArray = s.toByteArray := by simp [ofText]
  have hv : (ByteArray.mk (ofText s).toArray).validateUTF8 = true := by
    rw [h]; exact ByteArray.validateUTF8_eq_true_iff.mpr s.isValidUTF8
  simp only [toText?, hv, dite_true, Option.some.injEq]
  exact String.toByteArray_inj.mp h

theorem ofText_of_toText? {b : Bytes} {s : String} (h : toText? b = some s) : ofText s = b := by
  unfold toText? at h
  simp only at h
  split at h
  · cases h; simp [ofText]
  · cases h

/-! ## Numbers -/

/-- The lowest `size` octets of a number, the lowest first. -/
def littleEndian : Nat → Nat → Bytes
  | 0, _ => []
  | size + 1, n => UInt8.ofNat n :: littleEndian size (n / 256)

/-- The number whose octets these are, the lowest first. -/
def ofLittleEndian : Bytes → Nat
  | [] => 0
  | b :: rest => b.toNat + 256 * ofLittleEndian rest

@[simp] theorem length_littleEndian (size n : Nat) : (littleEndian size n).length = size := by
  induction size generalizing n with
  | zero => rfl
  | succ size ih => simp [littleEndian, ih]

theorem ofLittleEndian_littleEndian (size n : Nat) :
    ofLittleEndian (littleEndian size n) = n % 256 ^ size := by
  induction size generalizing n with
  | zero => simp [littleEndian, ofLittleEndian, Nat.mod_one]
  | succ size ih =>
    simp only [littleEndian, ofLittleEndian, ih, UInt8.toNat_ofNat', Nat.reducePow]
    rw [Nat.pow_succ, Nat.mul_comm (256 ^ size), Nat.mod_mul]

theorem littleEndian_ofLittleEndian (b : Bytes) : littleEndian b.length (ofLittleEndian b) = b := by
  induction b with
  | nil => rfl
  | cons x rest ih =>
    have hx := x.toNat_lt
    have hq : (x.toNat + 256 * ofLittleEndian rest) / 256 = ofLittleEndian rest := by omega
    simp only [ofLittleEndian, List.length_cons, littleEndian, hq, ih, List.cons.injEq, and_true]
    apply UInt8.toNat_inj.mp
    simp only [UInt8.toNat_ofNat', Nat.reducePow]
    omega

theorem ofLittleEndian_lt (b : Bytes) : ofLittleEndian b < 256 ^ b.length := by
  induction b with
  | nil => simp [ofLittleEndian]
  | cons x rest ih =>
    have hx := x.toNat_lt
    simp only [ofLittleEndian, List.length_cons, Nat.pow_succ]
    omega

end Bytes

end TradeLedger

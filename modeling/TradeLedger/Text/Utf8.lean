/-
Where octets stop being UTF-8. A fault names the index of the first character that is not well
formed, and how many octets of it are certainly wrong; when the text merely ends inside a
character, nothing is certainly wrong yet.
-/
import TradeLedger.Bytes

namespace TradeLedger.Text.Utf8

/-- The first place at which octets are not UTF-8. -/
structure Fault where
  /-- How many octets before it are well formed. -/
  index : Nat
  /-- How many octets can be no part of a character, or nothing if the text ends too early. -/
  wrong : Option Nat
  deriving DecidableEq, Repr

namespace Fault

def message (f : Fault) : String :=
  match f.wrong with
  | some n => s!"invalid utf-8 sequence of {n} bytes from index {f.index}"
  | none => s!"incomplete utf-8 byte sequence from index {f.index}"

end Fault

/-- An octet that continues a character. -/
def isTail (b : UInt8) : Bool := 0x80 ≤ b && b ≤ 0xBF

/-- How many octets a character has that starts with this one, and the least and the greatest
octet that may come second. -/
def shape? (first : UInt8) : Option (Nat × UInt8 × UInt8) :=
  if first ≤ 0x7F then some (1, 0, 0)
  else if 0xC2 ≤ first && first ≤ 0xDF then some (2, 0x80, 0xBF)
  else if first == 0xE0 then some (3, 0xA0, 0xBF)
  else if first == 0xED then some (3, 0x80, 0x9F)
  else if 0xE1 ≤ first && first ≤ 0xEF then some (3, 0x80, 0xBF)
  else if first == 0xF0 then some (4, 0x90, 0xBF)
  else if 0xF1 ≤ first && first ≤ 0xF3 then some (4, 0x80, 0xBF)
  else if first == 0xF4 then some (4, 0x80, 0x8F)
  else none

/-- Reads the `owed` octets that continue a character of which `seen` octets are read. -/
def tails (owed seen : Nat) (b : Bytes) : Except (Option Nat) Bytes :=
  match owed, b with
  | 0, b => .ok b
  | _ + 1, [] => .error none
  | owed + 1, x :: rest => if isTail x then tails owed (seen + 1) rest else .error (some seen)

/-- Reads one character: the octets after it, or what is wrong with it. -/
def character : Bytes → Except (Option Nat) Bytes
  | [] => .error none
  | first :: rest =>
    match shape? first with
    | none => .error (some 1)
    | some (1, _, _) => .ok rest
    | some (size, least, greatest) =>
      match rest with
      | [] => .error none
      | second :: rest =>
        if least ≤ second && second ≤ greatest then tails (size - 2) 2 rest else .error (some 1)

theorem tails_length {owed seen : Nat} {b rest : Bytes} (h : tails owed seen b = .ok rest) :
    rest.length ≤ b.length := by
  fun_induction tails owed seen b with
  | case1 => cases h; exact Nat.le_refl _
  | case2 => cases h
  | case3 _ _ _ _ _ ih => exact Nat.le_succ_of_le (ih h)
  | case4 => cases h

theorem character_length {b rest : Bytes} (h : character b = .ok rest) :
    rest.length < b.length := by
  unfold character at h
  split at h
  · cases h
  · split at h
    · cases h
    · cases h; exact Nat.lt_succ_self _
    · split at h
      · cases h
      · split at h
        · have := tails_length h; simp only [List.length_cons]; omega
        · cases h

/-- The first fault of octets of which `index` well formed ones are already read. Octets without
any fault have theirs at the end. -/
def faultFrom (index : Nat) (b : Bytes) : Fault :=
  match h : character b with
  | .error wrong => ⟨index, wrong⟩
  | .ok rest =>
    have := character_length h
    faultFrom (index + (b.length - rest.length)) rest
termination_by b.length

/-- The first fault of octets that spell no text. -/
def fault (b : Bytes) : Fault := faultFrom 0 b

end TradeLedger.Text.Utf8

/-
Octets written as hexadecimal digits, two to an octet and the high one first. Writing uses lower
case; reading takes both cases and refuses an odd number of digits.
-/
import TradeLedger.Bytes

namespace TradeLedger.Hex

/-- The lower-case digit of a number below sixteen. -/
def digit (n : Nat) : Char := if n < 10 then Char.ofNat (48 + n) else Char.ofNat (87 + n)

/-- The number a digit of either case stands for. -/
def value? (c : Char) : Option Nat :=
  if '0' ≤ c && c ≤ '9' then some (c.toNat - 48)
  else if 'a' ≤ c && c ≤ 'f' then some (c.toNat - 87)
  else if 'A' ≤ c && c ≤ 'F' then some (c.toNat - 55)
  else none

def digits : Bytes → List Char
  | [] => []
  | b :: rest => digit (b.toNat / 16) :: digit (b.toNat % 16) :: digits rest

def ofDigits? : List Char → Option Bytes
  | [] => some []
  | [_] => none
  | high :: low :: rest => do
    let h ← value? high
    let l ← value? low
    let octets ← ofDigits? rest
    return UInt8.ofNat (16 * h + l) :: octets

def encode (b : Bytes) : String := String.ofList (digits b)

def decode? (s : String) : Option Bytes := ofDigits? s.toList

@[simp] theorem value?_digit {n : Nat} (h : n < 16) : value? (digit n) = some n := by
  have : ∀ k : Fin 16, value? (digit k.val) = some k.val := by decide
  exact this ⟨n, h⟩

theorem ofDigits?_digits (b : Bytes) : ofDigits? (digits b) = some b := by
  induction b with
  | nil => rfl
  | cons x rest ih =>
    have hx := x.toNat_lt
    have hsum : 16 * (x.toNat / 16) + x.toNat % 16 = x.toNat := by omega
    simp only [digits, ofDigits?]
    rw [value?_digit (by omega), value?_digit (by omega)]
    simp only [ih, Option.bind_eq_bind, Option.bind_some, Option.pure_def, hsum, UInt8.ofNat_toNat]

theorem decode?_encode (b : Bytes) : decode? (encode b) = some b := by
  simp [decode?, encode, ofDigits?_digits]

end TradeLedger.Hex

/-
A decimal reads back from its text with its number, its scale and its sign, but for the sign of a
zero. The lenient reader has nothing to be lenient about in such a text: every digit fits, and the
point stands between digits. Two decimals never have one text, a zero and its negative included.
-/
import TradeLedger.Bytes
import TradeLedger.Proofs.Decimal.Plain
import TradeLedger.Proofs.Decimal.Value

namespace TradeLedger.Decimal

/-! ## Reading digits -/

theorem le_ofDigitChars (ds : List Char) (c : ℕ) : c ≤ Nat.ofDigitChars 10 ds c := by
  rw [Nat.ofDigitChars_eq_ofDigitChars_zero]
  have : 1 ≤ 10 ^ ds.length := Nat.one_le_pow _ _ (by norm_num)
  nlinarith

theorem readDigits_digit {x : Char} (hx : x.isDigit = true) {c k : ℕ} {point : Bool} (seen : Bool) (rest : List Char)
    (hc : 10 * c + (x.toNat - 48) < 2 ^ 96) (hk : point = true → k < 28) :
    readDigits c k point seen (x :: rest) =
      readDigits (10 * c + (x.toNat - 48)) (if point then k + 1 else k) point true rest := by
  have hroom : (point && k == 28) = false := by
    cases point with
    | false => rfl
    | true => simpa using (hk rfl).ne
  rw [readDigits]
  simp only [hx, if_true, hroom, hc, decide_true, Bool.not_false, Bool.and_self]

/-- Digits that all fit are read as the number that they continue. -/
theorem readDigits_append {ds : List Char} (hds : ∀ x ∈ ds, x.isDigit = true) {c k : ℕ} {point seen : Bool}
    (rest : List Char) (hc : Nat.ofDigitChars 10 ds c < 2 ^ 96) (hk : point = true → k + ds.length ≤ 28) :
    readDigits c k point seen (ds ++ rest) =
      readDigits (Nat.ofDigitChars 10 ds c) (if point then k + ds.length else k) point (seen || !ds.isEmpty) rest := by
  induction ds generalizing c k seen with
  | nil => simp
  | cons x ds ih =>
    rw [Nat.ofDigitChars_cons] at hc ⊢
    have hx := hds x List.mem_cons_self
    have hle := le_ofDigitChars ds (10 * c + (x.toNat - 48))
    rw [List.cons_append, readDigits_digit hx seen _ (by exact lt_of_le_of_lt hle hc), ih]
    · cases point
      · simp
      · simp [Nat.add_assoc, Nat.add_comm 1]
    · exact fun y hy => hds y (List.mem_cons_of_mem _ hy)
    · exact hc
    · intro hp
      have := hk hp
      simp only [List.length_cons] at this
      simp only [hp, if_true]
      omega
    · intro hp
      have := hk hp
      simp only [List.length_cons] at this
      omega

/-! ## Printed digits -/

theorem isDigit_padded (length n : ℕ) : ∀ x ∈ padded length n, x.isDigit = true := by
  intro x hx
  rcases List.mem_append.1 hx with hx | hx
  · rw [List.eq_of_mem_replicate hx]; decide
  · exact Plain.Digits.isDigit (Plain.digits_toDigits n) x hx

theorem ofDigitChars_padded (length n : ℕ) : Nat.ofDigitChars 10 (padded length n) 0 = n := by
  rw [padded, Nat.ofDigitChars_append, Nat.ofDigitChars_replicate_zero, Nat.mul_zero,
    Nat.ofDigitChars_ten_toDigits]

theorem le_length_padded (length n : ℕ) : length ≤ (padded length n).length := by
  simp only [padded, List.length_append, List.length_replicate]
  omega

/-- Ninety-six bits take 29 digits at most. -/
theorem length_padded_le (length : ℕ) {n : ℕ} (hl : length ≤ 29) (hn : n < 2 ^ 96) : (padded length n).length ≤ 29 := by
  have hd : (Nat.toDigits 10 n).length ≤ 29 :=
    (Nat.length_toDigits_le_iff (by norm_num) (by norm_num)).2 (hn.trans (by norm_num))
  simp only [padded, List.length_append, List.length_replicate]
  omega

/-! ## Printed decimals -/

/-- What is printed of a decimal behind its sign. -/
def unsignedChars (d : Decimal) : List Char :=
  let ds := padded (d.scale + 1) d.coefficient
  let whole := ds.length - d.scale
  if d.scale = 0 then ds else ds.take whole ++ '.' :: ds.drop whole

theorem chars_eq (d : Decimal) : d.chars = if d.negative then '-' :: d.unsignedChars else d.unsignedChars := rfl

theorem readDigits_unsignedChars (d : Decimal) :
    readDigits 0 0 false false d.unsignedChars = some (d.coefficient, d.scale) := by
  have hdigits := isDigit_padded (d.scale + 1) d.coefficient
  have hnumber := ofDigitChars_padded (d.scale + 1) d.coefficient
  have hlength := le_length_padded (d.scale + 1) d.coefficient
  have hfits := d.coefficient_lt
  rw [unsignedChars]
  -- only the number and the least length of the digits matter from here on
  generalize padded (d.scale + 1) d.coefficient = ds at *
  split
  · rename_i h0
    have hne : ds ≠ [] := by rintro rfl; simp at hlength
    rw [← List.append_nil ds, readDigits_append hdigits [] (by omega) (by simp), hnumber, h0]
    simp [readDigits, hne]
  · rename_i h0
    have hwhole : ds.take (ds.length - d.scale) ≠ [] := by
      rw [ne_eq, List.take_eq_nil_iff, not_or]
      exact ⟨by omega, by rintro rfl; simp at hlength⟩
    -- the number before the point is continued behind it, so both parts are bounded by the whole
    have hsplit : Nat.ofDigitChars 10 (ds.drop (ds.length - d.scale))
        (Nat.ofDigitChars 10 (ds.take (ds.length - d.scale)) 0) = d.coefficient := by
      rw [← Nat.ofDigitChars_append, List.take_append_drop, hnumber]
    have hfraction : (ds.drop (ds.length - d.scale)).length = d.scale := by
      rw [List.length_drop]; omega
    have hle := le_ofDigitChars (ds.drop (ds.length - d.scale))
      (Nat.ofDigitChars 10 (ds.take (ds.length - d.scale)) 0)
    rw [readDigits_append (fun x hx => hdigits x (List.mem_of_mem_take hx)) _ (by omega) (by simp)]
    have hpoint (c : ℕ) (seen : Bool) (rest : List Char) :
        readDigits c 0 false seen ('.' :: rest) = readDigits c 0 true seen rest := by
      simp [readDigits]
    rw [if_neg (by decide), hpoint, ← List.append_nil (ds.drop _),
      readDigits_append (fun x hx => hdigits x (List.mem_of_mem_drop hx)) [] (by omega)
        (fun _ => by rw [hfraction]; have := d.scale_le; omega), hsplit, hfraction]
    simp [readDigits, hwhole]

/-- Behind the sign stands a digit. -/
theorem head_unsignedChars (d : Decimal) : ∃ x rest, d.unsignedChars = x :: rest ∧ x.isDigit = true := by
  have hdigits := isDigit_padded (d.scale + 1) d.coefficient
  have hlength := le_length_padded (d.scale + 1) d.coefficient
  rw [unsignedChars]
  generalize padded (d.scale + 1) d.coefficient = ds at *
  cases ds with
  | nil => simp at hlength
  | cons x ds =>
    refine ⟨x, ?_⟩
    split
    · exact ⟨ds, rfl, hdigits x List.mem_cons_self⟩
    · obtain ⟨n, hn⟩ : ∃ n, (x :: ds).length - d.scale = n + 1 := ⟨(x :: ds).length - d.scale - 1, by omega⟩
      rw [hn, List.take_succ_cons]
      exact ⟨_, rfl, hdigits x List.mem_cons_self⟩

theorem ofFixed?_chars (d : Decimal) : ofFixed? d.chars = some d.unsignedZero := by
  have hparts : ofParts? d.negative d.coefficient d.scale = some d := by
    rw [ofParts?, dif_pos ⟨d.coefficient_lt, d.scale_le⟩]
  have hread := readDigits_unsignedChars d
  rw [chars_eq]
  cases hn : d.negative with
  | true =>
    rw [hn] at hparts
    simp [ofFixed?, hread, hparts]
  | false =>
    obtain ⟨x, rest, hx, hdigit⟩ := head_unsignedChars d
    have hminus : x ≠ '-' := by rintro rfl; exact absurd hdigit (by decide)
    have hplus : x ≠ '+' := by rintro rfl; exact absurd hdigit (by decide)
    rw [hn] at hparts
    rw [hx] at hread ⊢
    simp [ofFixed?, hminus, hplus, hread, hparts]

/-- The text of a decimal reads as the decimal, down to the number of its fraction digits, but a zero
reads without its sign. -/
theorem ofText?_text (d : Decimal) : ofText? d.text = some d.unsignedZero := by
  rw [ofText?, text, String.toList_ofList, ofFixed?_chars]
  rfl

theorem chars_inj {d e : Decimal} : d.chars = e.chars ↔ d = e := by
  refine ⟨fun h => ?_, fun h => h ▸ rfl⟩
  obtain ⟨x, rest, hx, hdigit⟩ := head_unsignedChars d
  obtain ⟨y, rest', hy, hdigit'⟩ := head_unsignedChars e
  have hsign : d.negative = e.negative ∧ d.unsignedChars = e.unsignedChars := by
    rw [chars_eq, chars_eq] at h
    cases hd : d.negative <;> cases he : e.negative <;> simp only [hd, he, Bool.false_eq_true, if_true, if_false] at h
    · exact ⟨rfl, h⟩
    · rw [hx] at h; rw [(List.cons.inj h).1] at hdigit; exact absurd hdigit (by decide)
    · rw [hy] at h; rw [← (List.cons.inj h).1] at hdigit'; exact absurd hdigit' (by decide)
    · exact ⟨rfl, (List.cons.inj h).2⟩
  have hparts := readDigits_unsignedChars d
  rw [hsign.2, readDigits_unsignedChars e] at hparts
  obtain ⟨hcoefficient, hscale⟩ := Prod.mk.inj (Option.some.inj hparts)
  exact Decimal.ext hsign.1 hcoefficient.symm hscale.symm

theorem text_inj {d e : Decimal} : d.text = e.text ↔ d = e := by
  rw [text, text, String.ofList_inj, chars_inj]

/-! ## The length of the text -/

theorem length_chars_le (d : Decimal) : d.chars.length ≤ 31 := by
  have hl := length_padded_le (d.scale + 1) (by have := d.scale_le; omega) d.coefficient_lt
  rw [chars_eq, unsignedChars]
  generalize padded (d.scale + 1) d.coefficient = ds at *
  split_ifs <;> simp <;> omega

theorem length_ofText_le (cs : List Char) : (Bytes.ofText (String.ofList cs)).length ≤ 4 * cs.length := by
  show (String.ofList cs).toByteArray.size ≤ _
  rw [String.toByteArray_ofList, List.utf8Encode, List.size_toByteArray]
  induction cs with
  | nil => rfl
  | cons c cs ih =>
    have := c.utf8Size_le_four
    rw [List.flatMap_cons, List.length_append, String.length_utf8EncodeChar, List.length_cons]
    omega

theorem length_text_le (d : Decimal) : (Bytes.ofText d.text).length ≤ 124 := by
  have := length_ofText_le d.chars
  have := d.length_chars_le
  rw [text]
  omega

end TradeLedger.Decimal

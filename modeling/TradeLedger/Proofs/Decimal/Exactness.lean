/-
The gateway is exact. A decimal text is admitted if and only if the number it denotes, rounded half
to even to the scale of the measure, has no more digits before the point than the measure has and
lies in its range; and then the decimal admitted has that scale, is that rounded number, and is not
a negative zero. An integer is admitted as its decimal text, and a floating point number never.

Nothing is refused for its length: neither zeros in front nor a long fraction count, and a number
that 96 bits do not hold is too large for every measure.
-/
import TradeLedger.Proofs.Decimal.Plain
import TradeLedger.Request

namespace TradeLedger

namespace Decimal

/-! ## The strict reader -/

theorem ofPlain_eq_ok {p : Plain} {d : Decimal} (h : ofPlain p = .ok d) :
    d.value = p.value ∧ d.scale = p.fraction.length ∧ d.Signed := by
  unfold ofPlain at h
  split_ifs at h
  unfold ofParts? at h
  split_ifs at h with hfit
  cases h
  exact ⟨by rw [value_unsignedZero]; rfl, by rw [scale_unsignedZero], signed_unsignedZero _⟩

/-- Text that is no decimal has too many digits. -/
theorem le_of_ofPlain_eq_error {p : Plain} {cause : Excess} (h : ofPlain p = .error cause)
    (hl : p.fraction.length ≤ 28) : 2 ^ 96 ≤ p.number := by
  unfold ofPlain at h
  split_ifs at h with hw
  · rw [Plain.number_eq]
    have : 1 ≤ 10 ^ p.fraction.length := Nat.one_le_pow _ _ (by norm_num)
    nlinarith
  · unfold ofParts? at h
    split_ifs at h with hfit
    by_contra hn
    exact hfit ⟨not_le.1 hn, hl⟩

end Decimal

namespace Measure

/-! ## Ranges -/

/-- The numbers that a measure takes. -/
def InRange : Measure → ℚ → Prop
  | .price, r | .quantity, r => 0 < r
  | .confidence, r => 0 ≤ r ∧ r ≤ 1
  | .currency, _ => True

/-- How many digits a figure has before the point at most. -/
def wholeDigits (m : Measure) : ℕ := m.precision - m.scale

theorem scale_le_ten (m : Measure) : m.scale ≤ 10 := by cases m <;> decide

theorem wholeDigits_add_scale_le (m : Measure) : m.wholeDigits + m.scale ≤ 20 := by cases m <;> decide

theorem checkRange_eq_ok_iff (m : Measure) {d e : Decimal} (hd : d.Signed) :
    m.checkRange d = .ok e ↔ d = e ∧ m.InRange d.value := by
  have hneg := hd.neg_iff
  have hzero := Decimal.value_eq_zero (d := d)
  have hpos : ¬ (d.negative = true ∨ d.coefficient = 0) ↔ 0 < d.value := by
    rw [hneg, ← hzero, not_or, not_lt]
    exact ⟨fun h => lt_of_le_of_ne h.1 (Ne.symm h.2), fun h => ⟨h.le, h.ne'⟩⟩
  have hone : 10 ^ d.scale < d.coefficient ↔ 1 < |d.value| := by
    rw [Decimal.abs_value, Decimal.magnitude, lt_div_iff₀ (by positivity), one_mul]
    exact_mod_cast Iff.rfl
  cases m with
  | price | quantity =>
    simp only [checkRange, InRange]
    split_ifs with h
    · simp only [false_iff, not_and]
      exact fun _ hv => hpos.2 hv h
    · simp only [Except.ok.injEq, hpos.1 h, and_true]
  | confidence =>
    simp only [checkRange, InRange]
    split_ifs with h
    · simp only [false_iff, not_and]
      rintro - h0 h1
      rcases h with h | h
      · exact absurd (hneg.1 h) (not_lt.2 h0)
      · have := hone.1 h
        rw [abs_of_nonneg h0] at this
        linarith
    · rw [not_or, hone, hneg, not_lt, not_lt] at h
      rw [abs_of_nonneg h.1] at h
      simp only [Except.ok.injEq, h.1, h.2, and_self, and_true]
  | currency => simp [checkRange, InRange]

/-! ## What is read -/

/-- The decimal of the text, at the scale of the measure as far as 96 bits allow. -/
def fitted (m : Measure) (d : Decimal) : Decimal := ((d.rounded m.scale).extended m.scale m.scale_le).unsignedZero

theorem fitted_spec (m : Measure) (d : Decimal) :
    (m.fitted d).value = roundTo m.scale d.value ∧ (m.fitted d).Signed ∧ (m.fitted d).scale ≤ m.scale ∧
      ((m.fitted d).scale = m.scale ∨ 2 ^ 96 ≤ 10 * (m.fitted d).coefficient) := by
  unfold fitted
  obtain ⟨hle, hfull⟩ := Decimal.scale_extended m.scale_le (Decimal.scale_rounded_le d m.scale)
  rw [Decimal.value_unsignedZero, Decimal.value_extended, Decimal.value_rounded, Decimal.scale_unsignedZero,
    Decimal.coefficient_unsignedZero]
  exact ⟨rfl, Decimal.signed_unsignedZero _, hle, hfull⟩

/-- The whole admission of a text, step by step. -/
theorem acceptText_eq (m : Measure) (text : String) :
    m.acceptText text =
      match Decimal.Plain.ofChars? text.toList with
      | none => .error (.notPlain text)
      | some p =>
        match Decimal.ofPlain (p.compact m.scale) with
        | .error cause => .error (.excess text cause)
        | .ok d =>
          if 10 ^ (m.wholeDigits + (m.fitted d).scale) ≤ (m.fitted d).coefficient then
            .error (.tooLarge text m.wholeDigits)
          else m.checkRange (m.fitted d) := by
  unfold acceptText fitted wholeDigits
  cases Decimal.Plain.ofChars? text.toList with
  | none => rfl
  | some p =>
    dsimp only
    cases Decimal.ofPlain (p.compact m.scale) with
    | error cause => rfl
    | ok d =>
      simp only [bind, Except.bind]

variable {m : Measure} {text : String} {p : Decimal.Plain}

/-- The number of a text, rounded, is the number of the shorter text, rounded. -/
theorem roundTo_value_compact (hp : p.WF) : roundTo m.scale (p.compact m.scale).value = roundTo m.scale p.value := by
  rw [Decimal.Plain.value, Decimal.Plain.value, Decimal.Plain.negative_compact, Decimal.roundTo_signed,
    Decimal.roundTo_signed, Decimal.Plain.roundTo_compact hp]

/-- A text that 96 bits do not hold is too large. -/
theorem le_of_excess (hp : p.WF) {cause : Decimal.Excess} (h : Decimal.ofPlain (p.compact m.scale) = .error cause) :
    (10 : ℚ) ^ m.wholeDigits ≤ |roundTo m.scale p.value| := by
  set c := p.compact m.scale with hc
  have hl : c.fraction.length ≤ m.scale + 2 := Decimal.Plain.length_fraction_compact_le p m.scale
  have hs := m.scale_le_ten
  have hw := m.wholeDigits_add_scale_le
  have hn := Decimal.le_of_ofPlain_eq_error h (by omega)
  -- the widest measure, with the two more digits that are read, has 22 of the 28 that always fit
  have hmag : ((10 ^ m.wholeDigits : ℕ) : ℚ) ≤ c.magnitude := by
    rw [Decimal.Plain.magnitude, le_div_iff₀ (by positivity)]
    have hpow : 10 ^ m.wholeDigits * 10 ^ c.fraction.length ≤ c.number := by
      calc 10 ^ m.wholeDigits * 10 ^ c.fraction.length = 10 ^ (m.wholeDigits + c.fraction.length) := by rw [pow_add]
        _ ≤ 10 ^ 22 := Nat.pow_le_pow_right (by norm_num) (by omega)
        _ ≤ 2 ^ 96 := by norm_num
        _ ≤ c.number := hn
    exact_mod_cast hpow
  have habs : |roundTo m.scale p.value| = |roundTo m.scale c.magnitude| := by
    rw [← roundTo_value_compact hp, ← hc, Decimal.Plain.value, Decimal.roundTo_signed]
    split_ifs
    · rw [abs_neg]
    · rfl
  rw [habs]
  refine le_trans ?_ (le_abs_self _)
  have := le_roundTo m.scale hmag
  push_cast at this
  exact this

/-- What is not too large leaves room for every digit of the scale. -/
theorem scale_fitted {d : Decimal} (h : |roundTo m.scale d.value| < 10 ^ m.wholeDigits) :
    (m.fitted d).scale = m.scale := by
  obtain ⟨hv, -, hle, hfull⟩ := m.fitted_spec d
  rcases hfull with hfull | hfull
  · exact hfull
  · -- a coefficient that leaves no room for a further zero is beyond every measure
    rw [← hv, Decimal.abs_value, ← not_le, Decimal.pow_le_magnitude_iff] at h
    have hw := m.wholeDigits_add_scale_le
    have hpow : 10 ^ (m.wholeDigits + (m.fitted d).scale) ≤ 10 ^ 20 := Nat.pow_le_pow_right (by norm_num) (by omega)
    omega

/-- A text of the grammar whose rounded number is not too large reaches the check of the range. -/
theorem acceptText_of_lt (hp : Decimal.Plain.ofChars? text.toList = some p)
    (hlt : |roundTo m.scale p.value| < 10 ^ m.wholeDigits) :
    ∃ f : Decimal, m.acceptText text = m.checkRange f ∧ f.scale = m.scale ∧ f.value = roundTo m.scale p.value ∧
      f.Signed := by
  have hwf := Decimal.Plain.wf_of_ofChars? hp
  rw [acceptText_eq, hp]
  dsimp only
  cases ho : Decimal.ofPlain (p.compact m.scale) with
  | error cause => exact absurd (le_of_excess hwf ho) (not_le.2 hlt)
  | ok d =>
    obtain ⟨hd, -, -⟩ := Decimal.ofPlain_eq_ok ho
    have hr : roundTo m.scale d.value = roundTo m.scale p.value := by rw [hd, roundTo_value_compact hwf]
    obtain ⟨hv, hsigned, -, -⟩ := m.fitted_spec d
    rw [hr] at hv
    have hfits : ¬ 10 ^ (m.wholeDigits + (m.fitted d).scale) ≤ (m.fitted d).coefficient := by
      rw [← Decimal.pow_le_magnitude_iff, ← Decimal.abs_value, hv]
      exact not_le.2 hlt
    dsimp only
    rw [if_neg hfits]
    exact ⟨m.fitted d, rfl, scale_fitted (by rw [hr]; exact hlt), hv, hsigned⟩

/-- A text of the grammar whose rounded number is too large is refused. -/
theorem acceptText_of_le (hp : Decimal.Plain.ofChars? text.toList = some p)
    (hle : 10 ^ m.wholeDigits ≤ |roundTo m.scale p.value|) : ∃ r, m.acceptText text = .error r := by
  have hwf := Decimal.Plain.wf_of_ofChars? hp
  rw [acceptText_eq, hp]
  dsimp only
  cases ho : Decimal.ofPlain (p.compact m.scale) with
  | error cause => exact ⟨_, rfl⟩
  | ok d =>
    obtain ⟨hd, -, -⟩ := Decimal.ofPlain_eq_ok ho
    obtain ⟨hv, -⟩ := m.fitted_spec d
    have hlarge : 10 ^ (m.wholeDigits + (m.fitted d).scale) ≤ (m.fitted d).coefficient := by
      rw [← Decimal.pow_le_magnitude_iff, ← Decimal.abs_value, hv, hd, roundTo_value_compact hwf]
      exact hle
    dsimp only
    rw [if_pos hlarge]
    exact ⟨_, rfl⟩

/-- What is admitted of a text of the grammar. -/
theorem acceptText_eq_ok_iff (hp : Decimal.Plain.ofChars? text.toList = some p) {d : Decimal} :
    m.acceptText text = .ok d ↔
      |roundTo m.scale p.value| < 10 ^ m.wholeDigits ∧ m.InRange (roundTo m.scale p.value) ∧ d.scale = m.scale ∧
        d.value = roundTo m.scale p.value ∧ d.Signed := by
  by_cases hlt : |roundTo m.scale p.value| < 10 ^ m.wholeDigits
  · obtain ⟨f, ha, hs, hv, hf⟩ := acceptText_of_lt hp hlt
    rw [ha, checkRange_eq_ok_iff m hf, hv]
    constructor
    · rintro ⟨rfl, hr⟩
      exact ⟨hlt, hr, hs, hv, hf⟩
    · rintro ⟨-, hr, hs', hv', hd⟩
      exact ⟨Decimal.eq_of_value_eq (hs.trans hs'.symm) (hv.trans hv'.symm) hf hd, hr⟩
  · obtain ⟨r, ha⟩ := acceptText_of_le hp (not_lt.1 hlt)
    rw [ha]
    constructor
    · intro h; cases h
    · rintro ⟨h, -⟩; exact absurd h hlt

/-- Text outside the grammar is refused. -/
theorem spells_of_acceptText {d : Decimal} (h : m.acceptText text = .ok d) :
    ∃ p, Decimal.Plain.ofChars? text.toList = some p := by
  rw [acceptText_eq] at h
  cases hp : Decimal.Plain.ofChars? text.toList with
  | none => rw [hp] at h; cases h
  | some p => exact ⟨p, rfl⟩

/-- A number that is within the digits and the range of a measure is admitted. -/
theorem exists_acceptText_iff :
    (∃ d, m.acceptText text = .ok d) ↔
      ∃ q, Decimal.Spells text q ∧ |roundTo m.scale q| < 10 ^ m.wholeDigits ∧ m.InRange (roundTo m.scale q) := by
  constructor
  · rintro ⟨d, h⟩
    obtain ⟨p, hp⟩ := spells_of_acceptText h
    obtain ⟨hlt, hr, -⟩ := (acceptText_eq_ok_iff hp).1 h
    exact ⟨p.value, Decimal.Plain.spells_iff.2 ⟨p, hp, rfl⟩, hlt, hr⟩
  · rintro ⟨q, hq, hlt, hr⟩
    obtain ⟨p, hp, rfl⟩ := Decimal.Plain.spells_iff.1 hq
    obtain ⟨f, ha, hs, hv, hf⟩ := acceptText_of_lt hp hlt
    exact ⟨f, by rw [ha, checkRange_eq_ok_iff m hf, hv]; exact ⟨rfl, hr⟩⟩

/-- What is admitted is the rounded number of the text, at the scale of the measure. -/
theorem acceptText_iff {d : Decimal} :
    m.acceptText text = .ok d ↔
      ∃ q, Decimal.Spells text q ∧ |roundTo m.scale q| < 10 ^ m.wholeDigits ∧ m.InRange (roundTo m.scale q) ∧
        d.scale = m.scale ∧ d.value = roundTo m.scale q ∧ d.Signed := by
  constructor
  · intro h
    obtain ⟨p, hp⟩ := spells_of_acceptText h
    exact ⟨p.value, Decimal.Plain.spells_iff.2 ⟨p, hp, rfl⟩, (acceptText_eq_ok_iff hp).1 h⟩
  · rintro ⟨q, hq, h⟩
    obtain ⟨p, hp, rfl⟩ := Decimal.Plain.spells_iff.1 hq
    exact (acceptText_eq_ok_iff hp).2 h

/-- No negative zero is let in. -/
theorem signed_accept {f : Figure} {d : Decimal} (h : m.accept f = .ok d) : d.Signed := by
  cases f with
  | text s =>
    obtain ⟨q, -, -, -, -, -, hd⟩ := acceptText_iff.1 (show m.acceptText s = .ok d from h)
    exact hd
  | integer i =>
    obtain ⟨q, -, -, -, -, -, hd⟩ := acceptText_iff.1 (show m.acceptText _ = .ok d from h)
    exact hd
  | float => cases h

/-! ## Integers -/

theorem ofList_integerChars (i : ℤ) : String.ofList (Json.integerChars i) = toString i := by
  rw [Int.toString_eq_repr, Int.repr_eq_if, Json.integerChars]
  by_cases h : i < 0
  · rw [if_pos h, if_neg (not_le.2 h), Nat.repr_eq_ofList_toDigits, show (-i).toNat = i.natAbs by omega]
    rw [show "-" = String.ofList ['-'] from rfl, ← String.ofList_append, List.singleton_append]
  · rw [if_neg h, if_pos (not_lt.1 h), Nat.repr_eq_ofList_toDigits, show i.toNat = i.natAbs by omega]

/-- The decimal text of an integer denotes it. -/
theorem spells_toString (i : ℤ) : Decimal.Spells (toString i) i := by
  have hn := Decimal.Denotes.whole (Decimal.Plain.digits_toDigits i.natAbs)
  rw [Nat.ofDigitChars_ten_toDigits] at hn
  rw [← ofList_integerChars, Json.integerChars]
  by_cases h : i < 0
  · rw [if_pos h]
    have hi : (i : ℚ) = -(i.natAbs : ℚ) := by
      rw [← Int.cast_natCast, ← Int.cast_neg]; congr 1; omega
    rw [hi]
    exact .negative (String.toList_ofList) hn
  · rw [if_neg h]
    have hi : (i : ℚ) = (i.natAbs : ℚ) := by
      rw [← Int.cast_natCast]; congr 1; omega
    rw [hi]
    exact .unsigned (by rw [String.toList_ofList]; exact hn)

/-! ## The gateway -/

/-- A text is admitted exactly if it is plain decimal text whose number, rounded half to even at the
scale of the measure, is within its digits and its range; what is admitted has that scale, is that
number, and is no negative zero. An integer passes as its decimal text does, whatever the field, and
a floating point number never. -/
theorem gateway_exact (m : Measure) :
    (∀ text, (∃ d, m.accept (.text text) = .ok d) ↔
      ∃ q, Decimal.Spells text q ∧ |roundTo m.scale q| < 10 ^ (m.precision - m.scale) ∧
        m.InRange (roundTo m.scale q)) ∧
    (∀ text d, m.accept (.text text) = .ok d ↔
      ∃ q, Decimal.Spells text q ∧ |roundTo m.scale q| < 10 ^ (m.precision - m.scale) ∧
        m.InRange (roundTo m.scale q) ∧ d.scale = m.scale ∧ d.value = roundTo m.scale q ∧
        ¬ (roundTo m.scale q = 0 ∧ d.negative = true)) ∧
    (∀ field id (i : ℤ), Decimal.Spells (toString i) i ∧
      Field.figure field m id (.integer i) = Field.figure field m id (.text (toString i))) ∧
    (∀ field id d, Field.figure field m id .float ≠ .ok d) := by
  refine ⟨fun text => exists_acceptText_iff, fun text d => ?_, fun field id i => ⟨spells_toString i, ?_⟩, ?_⟩
  · rw [accept, acceptText_iff]
    refine exists_congr fun q => and_congr_right fun _ => and_congr_right fun _ => and_congr_right fun _ =>
      and_congr_right fun _ => and_congr_right fun hv => ?_
    rw [Decimal.signed_iff, hv, not_and, Bool.not_eq_true]
  · rw [Field.figure, Field.figure, accept, accept, ofList_integerChars]
  · intro field id d h
    cases h

end Measure

end TradeLedger

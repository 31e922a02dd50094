/-
Plain decimal text: the grammar `-?[0-9]+([.][0-9]+)?` and the number a text denotes, said apart
from the reader. The reader takes exactly the texts of the grammar, and shortening a text to two
digits behind those that are kept does not change what its number is rounded to.
-/
import Mathlib.Data.List.TakeWhile
import TradeLedger.Decimal.Reader
import TradeLedger.Proofs.Decimal.Value

namespace TradeLedger.Decimal

/-! ## Digits -/

theorem ofDigitChars_append_zero (xs ys : List Char) :
    Nat.ofDigitChars 10 (xs ++ ys) 0 = Nat.ofDigitChars 10 xs 0 * 10 ^ ys.length + Nat.ofDigitChars 10 ys 0 := by
  rw [Nat.ofDigitChars_append, Nat.ofDigitChars_eq_ofDigitChars_zero, Nat.mul_comm]

theorem toNat_sub_lt_ten {c : Char} (h : c.isDigit = true) : c.toNat - 48 < 10 := by
  have h := Char.isDigit_iff_toNat.1 h
  simp only [Char.reduceToNat] at h
  omega

theorem ofDigitChars_lt {cs : List Char} (h : ∀ c ∈ cs, c.isDigit = true) :
    Nat.ofDigitChars 10 cs 0 < 10 ^ cs.length := by
  induction cs using List.reverseRecOn with
  | nil => simp [Nat.ofDigitChars_nil]
  | append_singleton cs c ih =>
    have hc := toNat_sub_lt_ten (h c (by simp))
    have := ih fun d hd => h d (by simp [hd])
    rw [ofDigitChars_append_zero, List.length_append, pow_add]
    simp only [Nat.ofDigitChars_cons, Nat.ofDigitChars_nil, Char.reduceToNat, List.length_singleton]
    omega

theorem ofDigitChars_eq_zero_iff {cs : List Char} (h : ∀ c ∈ cs, c.isDigit = true) :
    Nat.ofDigitChars 10 cs 0 = 0 ↔ ∀ c ∈ cs, c = '0' := by
  induction cs using List.reverseRecOn with
  | nil => simp [Nat.ofDigitChars_nil]
  | append_singleton cs c ih =>
    have ih := ih fun d hd => h d (by simp [hd])
    have hd := Char.isDigit_iff_toNat.1 (h c (by simp))
    have hc : c.toNat - 48 = 0 ↔ c = '0' := by
      constructor
      · intro h0
        apply Char.toNat_inj.1
        simp only [Char.reduceToNat] at hd ⊢
        omega
      · rintro rfl; rfl
    rw [ofDigitChars_append_zero]
    simp only [Nat.ofDigitChars_cons, Nat.ofDigitChars_nil, Char.reduceToNat, List.length_singleton, pow_one,
      Nat.mul_zero, Nat.zero_add, Nat.add_eq_zero_iff, List.mem_append, List.mem_singleton, hc]
    constructor
    · rintro ⟨h1, h2⟩ d (hd | rfl)
      · exact ih.1 (by omega) d hd
      · exact h2
    · intro hall
      exact ⟨by rw [ih.2 fun d hd => hall d (.inl hd)], hall c (.inr rfl)⟩

/-! ## The grammar -/

/-- One or more of the ten digits of ASCII. -/
def Digits (cs : List Char) : Prop := cs ≠ [] ∧ ∀ c ∈ cs, '0' ≤ c ∧ c ≤ '9'

/-- Digits, perhaps with a point and more digits behind them, and the number that they denote. -/
inductive Denotes : List Char → ℚ → Prop where
  | whole {ds : List Char} : Digits ds → Denotes ds (Nat.ofDigitChars 10 ds 0)
  | fraction {ds fs : List Char} : Digits ds → Digits fs →
      Denotes (ds ++ '.' :: fs) (Nat.ofDigitChars 10 ds 0 + Nat.ofDigitChars 10 fs 0 / 10 ^ fs.length)

/-- Plain decimal text, perhaps with a minus sign, and the number that it denotes. -/
inductive Spells (s : String) : ℚ → Prop where
  | unsigned {q : ℚ} : Denotes s.toList q → Spells s q
  | negative {cs : List Char} {q : ℚ} : s.toList = '-' :: cs → Denotes cs q → Spells s (-q)

namespace Plain

/-- The number that all digits make, the point left out. -/
def number (p : Plain) : ℕ := Nat.ofDigitChars 10 (p.whole ++ p.fraction) 0

def magnitude (p : Plain) : ℚ := p.number / 10 ^ p.fraction.length

def value (p : Plain) : ℚ := if p.negative then -p.magnitude else p.magnitude

/-- Digits only, and at least one before the point. -/
structure WF (p : Plain) : Prop where
  whole : Digits p.whole
  fraction : ∀ c ∈ p.fraction, c.isDigit = true

theorem isDigit_iff {c : Char} : c.isDigit = true ↔ '0' ≤ c ∧ c ≤ '9' := by
  rw [Char.isDigit_iff_toNat, Char.le_def, Char.le_def, UInt32.le_iff_toNat_le, UInt32.le_iff_toNat_le]
  rfl

theorem isDigits_iff {cs : List Char} : isDigits cs = true ↔ Digits cs := by
  rw [isDigits, Bool.and_eq_true, List.all_eq_true, Digits]
  simp only [isDigit_iff, Bool.not_eq_true', List.isEmpty_eq_false_iff]

theorem digits_toDigits (n : ℕ) : Digits (Nat.toDigits 10 n) :=
  ⟨Nat.toDigits_ne_nil, fun _ hc => isDigit_iff.1 (Nat.isDigit_of_mem_toDigits (by norm_num) (by norm_num) hc)⟩

theorem Digits.isDigit {cs : List Char} (h : Digits cs) : ∀ c ∈ cs, c.isDigit = true :=
  fun c hc => isDigit_iff.2 (h.2 c hc)

/-- A digit is not a point. -/
theorem Digits.ne_point {cs : List Char} (h : Digits cs) : ∀ c ∈ cs, (c ≠ '.' : Bool) = true := by
  intro c hc
  have := Digits.isDigit h c hc
  simp only [ne_eq, decide_not, Bool.not_eq_true', decide_eq_false_iff_not]
  rintro rfl
  exact absurd this (by decide)

/-! ## The reader of the grammar -/

/-- The text behind the sign. -/
def ofUnsigned? (negative : Bool) (cs : List Char) : Option Plain :=
  let whole := cs.takeWhile (· ≠ '.')
  match cs.dropWhile (· ≠ '.') with
  | [] => if isDigits whole then some ⟨negative, whole, []⟩ else none
  | _ :: fraction => if isDigits whole && isDigits fraction then some ⟨negative, whole, fraction⟩ else none

theorem ofChars?_minus (cs : List Char) : ofChars? ('-' :: cs) = ofUnsigned? true cs := rfl

theorem ofChars?_of_ne {cs : List Char} (h : ∀ rest, cs ≠ '-' :: rest) : ofChars? cs = ofUnsigned? false cs := by
  unfold ofChars?
  split
  rename_i negative cs' heq
  split at heq
  · exact absurd rfl (h _)
  · cases heq; rfl

theorem ofUnsigned?_whole (negative : Bool) {ds : List Char} (h : Digits ds) :
    ofUnsigned? negative ds = some ⟨negative, ds, []⟩ := by
  have hd := List.dropWhile_eq_nil_iff.2 (Digits.ne_point h)
  have ht := List.takeWhile_eq_self_iff.2 (Digits.ne_point h)
  unfold ofUnsigned?
  simp only [hd, ht, isDigits_iff.2 h, if_true]

theorem ofUnsigned?_fraction (negative : Bool) {ds fs : List Char} (h : Digits ds) (hf : Digits fs) :
    ofUnsigned? negative (ds ++ '.' :: fs) = some ⟨negative, ds, fs⟩ := by
  have ht : (ds ++ '.' :: fs).takeWhile (· ≠ '.') = ds := by
    rw [List.takeWhile_append_of_pos (Digits.ne_point h)]
    simp
  have hd : (ds ++ '.' :: fs).dropWhile (· ≠ '.') = '.' :: fs := by
    rw [List.dropWhile_append_of_pos (Digits.ne_point h)]
    simp
  unfold ofUnsigned?
  simp only [hd, ht, isDigits_iff.2 h, isDigits_iff.2 hf, Bool.and_self, if_true]

/-- What is read was written in one of the two ways. -/
theorem ofUnsigned?_eq_some {negative : Bool} {cs : List Char} {p : Plain} (h : ofUnsigned? negative cs = some p) :
    (Digits cs ∧ p = ⟨negative, cs, []⟩) ∨
      ∃ ds fs, cs = ds ++ '.' :: fs ∧ Digits ds ∧ Digits fs ∧ p = ⟨negative, ds, fs⟩ := by
  have hcs := List.takeWhile_append_dropWhile (p := fun c : Char => (c ≠ '.' : Bool)) (l := cs)
  unfold ofUnsigned? at h
  simp only at h
  split at h
  · rename_i hd
    rw [hd, List.append_nil] at hcs
    split_ifs at h with hw
    cases h
    rw [hcs] at hw ⊢
    exact .inl ⟨isDigits_iff.1 hw, rfl⟩
  · rename_i x fraction hd
    have hx : x = '.' := by
      have := List.head?_dropWhile_not (fun c : Char => (c ≠ '.' : Bool)) cs
      rw [hd] at this
      simpa using this
    subst hx
    rw [hd] at hcs
    split_ifs at h with hw
    cases h
    rw [Bool.and_eq_true] at hw
    exact .inr ⟨_, _, hcs.symm, isDigits_iff.1 hw.1, isDigits_iff.1 hw.2, rfl⟩

theorem wf_of_ofUnsigned? {negative : Bool} {cs : List Char} {p : Plain} (h : ofUnsigned? negative cs = some p) :
    p.WF ∧ p.negative = negative := by
  rcases ofUnsigned?_eq_some h with ⟨hd, rfl⟩ | ⟨ds, fs, -, hd, hf, rfl⟩
  · exact ⟨⟨hd, by simp⟩, rfl⟩
  · exact ⟨⟨hd, Digits.isDigit hf⟩, rfl⟩

/-- The reader reads the number that is denoted. -/
theorem denotes_iff (negative : Bool) {cs : List Char} {q : ℚ} :
    Denotes cs q ↔ ∃ p, ofUnsigned? negative cs = some p ∧ p.magnitude = q := by
  constructor
  · intro h
    cases h with
    | whole hd => exact ⟨_, ofUnsigned?_whole negative hd, by simp [magnitude, number]⟩
    | fraction hd hf =>
      refine ⟨_, ofUnsigned?_fraction negative hd hf, ?_⟩
      simp only [magnitude, number, ofDigitChars_append_zero]
      push_cast
      rw [add_div, mul_div_cancel_right₀ _ (by positivity)]
  · rintro ⟨p, hp, rfl⟩
    rcases ofUnsigned?_eq_some hp with ⟨hd, rfl⟩ | ⟨ds, fs, rfl, hd, hf, rfl⟩
    · simpa [magnitude, number] using Denotes.whole hd
    · have h := Denotes.fraction hd hf
      simp only [magnitude, number, ofDigitChars_append_zero]
      push_cast
      rwa [add_div, mul_div_cancel_right₀ _ (by positivity)]

/-- No number is denoted by text that starts with a sign. -/
theorem not_denotes_minus {cs : List Char} {q : ℚ} : ¬ Denotes ('-' :: cs) q := by
  intro h
  have minus : ∀ ds, Digits ds → ds.head? ≠ some '-' := by
    intro ds hd h0
    have := (hd.2 '-' (List.mem_of_mem_head? h0)).1
    exact absurd this (by decide)
  -- the sign is no digit, and digits come first in either kind of text
  generalize hc : '-' :: cs = text at h
  cases h with
  | whole hd => exact minus _ hd (by rw [← hc]; rfl)
  | @fraction ds fs hd hf =>
    obtain ⟨d, ds, rfl⟩ := List.exists_cons_of_ne_nil hd.1
    rw [List.cons_append, List.cons.injEq] at hc
    exact minus _ hd (by rw [← hc.1]; rfl)

/-- The reader takes exactly the texts of the grammar, each for the number that it denotes. -/
theorem spells_iff {s : String} {q : ℚ} : Spells s q ↔ ∃ p, ofChars? s.toList = some p ∧ p.value = q := by
  by_cases hm : ∃ cs, s.toList = '-' :: cs
  · obtain ⟨cs, hcs⟩ := hm
    rw [hcs, ofChars?_minus]
    constructor
    · rintro (h | ⟨hcs', h⟩)
      · rw [hcs] at h
        exact absurd h not_denotes_minus
      · rw [hcs, List.cons.injEq] at hcs'
        obtain ⟨-, rfl⟩ := hcs'
        obtain ⟨p, hp, rfl⟩ := (denotes_iff true).1 h
        exact ⟨p, hp, by rw [value, (wf_of_ofUnsigned? hp).2, if_pos rfl]⟩
    · rintro ⟨p, hp, rfl⟩
      rw [value, (wf_of_ofUnsigned? hp).2, if_pos rfl]
      exact .negative hcs ((denotes_iff _).2 ⟨p, hp, rfl⟩)
  · rw [ofChars?_of_ne fun rest h => hm ⟨rest, h⟩]
    constructor
    · rintro (h | ⟨hcs, -⟩)
      · obtain ⟨p, hp, rfl⟩ := (denotes_iff false).1 h
        exact ⟨p, hp, by rw [value, (wf_of_ofUnsigned? hp).2]; rfl⟩
      · exact absurd ⟨_, hcs⟩ hm
    · rintro ⟨p, hp, rfl⟩
      rw [value, (wf_of_ofUnsigned? hp).2]
      exact .unsigned ((denotes_iff _).2 ⟨p, hp, rfl⟩)

/-- A text denotes one number. -/
theorem spells_unique {s : String} {q r : ℚ} (hq : Spells s q) (hr : Spells s r) : q = r := by
  obtain ⟨p, hp, rfl⟩ := spells_iff.1 hq
  obtain ⟨p', hp', rfl⟩ := spells_iff.1 hr
  rw [hp] at hp'
  cases hp'; rfl

theorem wf_of_ofChars? {cs : List Char} {p : Plain} (h : ofChars? cs = some p) : p.WF := by
  by_cases hm : ∃ rest, cs = '-' :: rest
  · obtain ⟨rest, rfl⟩ := hm
    exact (wf_of_ofUnsigned? (ofChars?_minus rest ▸ h)).1
  · rw [ofChars?_of_ne fun rest h => hm ⟨rest, h⟩] at h
    exact (wf_of_ofUnsigned? h).1

/-! ## Shorter text -/

/-- Zeros in front of a number do not count. -/
theorem ofDigitChars_dropWhile_zero (cs : List Char) :
    Nat.ofDigitChars 10 (cs.dropWhile (· = '0')) 0 = Nat.ofDigitChars 10 cs 0 := by
  induction cs with
  | nil => rfl
  | cons c cs ih =>
    by_cases hc : c = '0'
    · subst hc
      rw [List.dropWhile_cons_of_pos (by decide), ih, Nat.ofDigitChars_cons]
      rfl
    · rw [List.dropWhile_cons_of_neg (by simpa using hc)]

/-- The digits before the point, without zeros in front. -/
def trimmed (cs : List Char) : List Char := if cs.dropWhile (· = '0') = [] then ['0'] else cs.dropWhile (· = '0')

theorem ofDigitChars_trimmed (cs : List Char) :
    Nat.ofDigitChars 10 (trimmed cs) 0 = Nat.ofDigitChars 10 cs 0 := by
  unfold trimmed
  split_ifs with h
  · rw [← ofDigitChars_dropWhile_zero cs, h]; rfl
  · exact ofDigitChars_dropWhile_zero cs

theorem number_eq (p : Plain) :
    p.number = Nat.ofDigitChars 10 p.whole 0 * 10 ^ p.fraction.length + Nat.ofDigitChars 10 p.fraction 0 :=
  ofDigitChars_append_zero p.whole p.fraction

theorem negative_compact (p : Plain) (scale : ℕ) : (p.compact scale).negative = p.negative := rfl

theorem length_fraction_compact_le (p : Plain) (scale : ℕ) : (p.compact scale).fraction.length ≤ scale + 2 := by
  show (if p.fraction.length ≤ scale + 2 then p.fraction else _).length ≤ scale + 2
  by_cases h : p.fraction.length ≤ scale + 2
  · rw [if_pos h]
    exact h
  · rw [if_neg h, List.length_append, List.length_take, List.length_singleton]
    omega

/-- Text whose fraction is short enough keeps its number. -/
theorem magnitude_compact_of_le {p : Plain} {scale : ℕ} (h : p.fraction.length ≤ scale + 2) :
    (p.compact scale).magnitude = p.magnitude := by
  have hc : p.compact scale = ⟨p.negative, trimmed p.whole, p.fraction⟩ := by
    simp only [compact, trimmed, if_pos h]
  simp only [hc, magnitude, number_eq, ofDigitChars_trimmed]

/-- The digits that are dropped, as what they add to the last digit but one that is kept. -/
theorem magnitude_mul_pow {p : Plain} {scale : ℕ} (h : scale + 2 < p.fraction.length) :
    p.magnitude * 10 ^ scale =
      (Nat.ofDigitChars 10 (p.whole ++ p.fraction.take (scale + 1)) 0 : ℕ) / 10 +
        Nat.ofDigitChars 10 (p.fraction.drop (scale + 1)) 0 / 10 ^ (p.fraction.length - scale) := by
  have hn : p.number = Nat.ofDigitChars 10 (p.whole ++ p.fraction.take (scale + 1)) 0 *
      10 ^ (p.fraction.length - (scale + 1)) + Nat.ofDigitChars 10 (p.fraction.drop (scale + 1)) 0 := by
    rw [number, ← List.length_drop, ← ofDigitChars_append_zero, List.append_assoc, List.take_append_drop]
  obtain ⟨k, hk⟩ : ∃ k, p.fraction.length = scale + 1 + k := ⟨p.fraction.length - (scale + 1), by omega⟩
  rw [magnitude, hn, hk, show scale + 1 + k - (scale + 1) = k by omega, show scale + 1 + k - scale = k + 1 by omega]
  push_cast
  field_simp
  ring

/-- Digits of which the last is behind a tenth. -/
theorem magnitude_append_mul_pow (negative : Bool) (whole kept : List Char) (last : Char) {scale : ℕ}
    (h : kept.length = scale + 1) :
    magnitude ⟨negative, trimmed whole, kept ++ [last]⟩ * 10 ^ scale =
      (Nat.ofDigitChars 10 (whole ++ kept) 0 : ℕ) / 10 + Nat.ofDigitChars 10 [last] 0 / 100 := by
  have hn : number ⟨negative, trimmed whole, kept ++ [last]⟩ =
      Nat.ofDigitChars 10 (whole ++ kept) 0 * 10 + Nat.ofDigitChars 10 [last] 0 := by
    rw [number, ← List.append_assoc, ofDigitChars_append_zero, ofDigitChars_append_zero, ofDigitChars_trimmed,
      ← ofDigitChars_append_zero]
    rfl
  rw [magnitude, hn, List.length_append, h, List.length_singleton, pow_add, pow_add]
  push_cast
  field_simp
  ring

/-- Shortening a text does not change what it is rounded to. -/
theorem roundTo_compact {p : Plain} (hp : p.WF) (scale : ℕ) :
    roundTo scale (p.compact scale).magnitude = roundTo scale p.magnitude := by
  by_cases h : p.fraction.length ≤ scale + 2
  · rw [magnitude_compact_of_le h]
  · rw [not_le] at h
    set dropped := p.fraction.drop (scale + 1) with hdropped
    have hdigits : ∀ c ∈ dropped, c.isDigit = true := fun c hc => hp.fraction c (List.mem_of_mem_drop hc)
    set sticky : Char := if dropped.any (· ≠ '0') then '1' else '0' with hsticky
    have hc : p.compact scale = ⟨p.negative, trimmed p.whole, p.fraction.take (scale + 1) ++ [sticky]⟩ := by
      simp only [compact, trimmed, if_neg (not_le.2 h), hsticky, hdropped]
    -- the last digit that is kept tells whether the number goes on behind the one before it
    obtain ⟨n, hn, hle, hzero⟩ : ∃ n : ℕ, Nat.ofDigitChars 10 [sticky] 0 = n ∧ n ≤ 1 ∧
        (n = 0 ↔ Nat.ofDigitChars 10 dropped 0 = 0) := by
      rw [ofDigitChars_eq_zero_iff hdigits, hsticky]
      split_ifs with hany
      · exact ⟨1, rfl, le_rfl, by simpa using hany⟩
      · exact ⟨0, rfl, zero_le_one, by simpa using hany⟩
    have hlt : (Nat.ofDigitChars 10 dropped 0 : ℚ) < 10 ^ (p.fraction.length - (scale + 1)) := by
      have := ofDigitChars_lt hdigits
      rw [hdropped, List.length_drop] at this
      exact_mod_cast this
    have hpow : (10 : ℚ) ^ (p.fraction.length - scale) = 10 ^ (p.fraction.length - (scale + 1)) * 10 := by
      rw [← pow_succ]; congr 1; omega
    rw [roundTo, roundTo, hc, magnitude_append_mul_pow _ _ _ _ (by rw [List.length_take]; omega), magnitude_mul_pow h,
      hn, ← hdropped]
    congr 2
    apply halfEven_sticky
    · have : (n : ℚ) ≤ 1 := by exact_mod_cast hle
      exact ⟨by positivity, by linarith⟩
    · refine ⟨by positivity, ?_⟩
      rw [div_lt_iff₀ (by positivity), hpow]
      linarith
    · rw [div_eq_zero_iff, div_eq_zero_iff, or_iff_left (by norm_num), or_iff_left (by positivity)]
      exact_mod_cast hzero

end Plain

end TradeLedger.Decimal

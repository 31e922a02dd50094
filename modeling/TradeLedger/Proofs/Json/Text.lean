/-
How texts and numbers are spelled in JSON, and that they are read as what they spell. A character of
a text stands for itself unless it is a quote, a backslash or a control character, or it is escaped:
by a letter, by the digits of its UTF-16 unit, or by those of a surrogate pair. What is read is what
stands in front of the rest in one of these spellings, and nothing else.
-/
import TradeLedger.Proofs.Decimal.Text
import TradeLedger.Proofs.Json

namespace TradeLedger.Json

/-! ## Pieces -/

/-- What a piece of a text looks like between the quotes. -/
inductive PieceSpelt : Piece → List Char → Prop where
  | plain {c : Char} : c ≠ '"' → c ≠ '\\' → 0x20 ≤ c.toNat → PieceSpelt (.char c) [c]
  | letter {c e : Char} : escaped? e = some c → PieceSpelt (.char c) ['\\', e]
  | unit {n : ℕ} {x₁ x₂ x₃ x₄ : Char} : unit? x₁ x₂ x₃ x₄ = some n → PieceSpelt (.unit n) ['\\', 'u', x₁, x₂, x₃, x₄]

theorem pieces_of_pieceSpelt {p : Piece} {text : List Char} (h : PieceSpelt p text) (rest : List Char) :
    pieces (text ++ rest) = (pieces rest).map fun r => (p :: r.1, r.2) := by
  cases h with
  | @plain c hquote hslash hcontrol =>
    have hplain : ¬ (decide (c.toNat < 0x20) || decide (c = '\\')) = true := by simp [hslash, hcontrol]
    rw [List.singleton_append, pieces, if_neg hplain]
    · cases pieces rest <;> rfl
    · exact hquote
    · intro _ _ _ _ _ h _
      exact hslash h
    · intro _ _ h _
      exact hslash h
  | @letter c e he =>
    have hu : e ≠ 'u' := by rintro rfl; cases he
    rw [List.cons_append, List.singleton_append, pieces, he]
    · cases pieces rest <;> rfl
    · intro _ _ _ _ _ h _
      exact hu h
  | unit hn =>
    simp only [List.cons_append, List.nil_append]
    rw [pieces, hn]
    cases pieces rest <;> rfl

/-- Pieces one after the other. -/
inductive PiecesSpelt : List Piece → List Char → Prop where
  | nil : PiecesSpelt [] []
  | cons {p : Piece} {ps : List Piece} {text more : List Char} : PieceSpelt p text → PiecesSpelt ps more →
      PiecesSpelt (p :: ps) (text ++ more)

theorem PiecesSpelt.append {ps qs : List Piece} {text more : List Char} (h : PiecesSpelt ps text)
    (h' : PiecesSpelt qs more) : PiecesSpelt (ps ++ qs) (text ++ more) := by
  induction h with
  | nil => exact h'
  | cons hp _ ih =>
    rw [List.cons_append, List.append_assoc]
    exact .cons hp ih

/-- The pieces before a quote are read, and nothing else is. -/
theorem pieces_eq_some_iff {cs rest : List Char} {ps : List Piece} :
    pieces cs = some (ps, rest) ↔ ∃ text, PiecesSpelt ps text ∧ cs = text ++ '"' :: rest := by
  constructor
  · intro h
    fun_induction pieces cs generalizing ps with
    | case1 => cases h
    | case2 rest' =>
      cases h
      exact ⟨[], .nil, rfl⟩
    | case3 a b c d rest' ih =>
      obtain ⟨n, hn, h⟩ := Option.bind_eq_some_iff.1 h
      obtain ⟨⟨more, rest''⟩, hmore, h⟩ := Option.bind_eq_some_iff.1 h
      cases h
      obtain ⟨text, htext, rfl⟩ := ih hmore
      exact ⟨_, .cons (.unit hn) htext, by simp⟩
    | case4 e rest' _ ih =>
      obtain ⟨c, hc, h⟩ := Option.bind_eq_some_iff.1 h
      obtain ⟨⟨more, rest''⟩, hmore, h⟩ := Option.bind_eq_some_iff.1 h
      cases h
      obtain ⟨text, htext, rfl⟩ := ih hmore
      exact ⟨_, .cons (.letter hc) htext, by simp⟩
    | case5 => cases h
    | case6 c rest' hquote _ _ hplain ih =>
      obtain ⟨⟨more, rest''⟩, hmore, h⟩ := Option.bind_eq_some_iff.1 h
      cases h
      obtain ⟨text, htext, rfl⟩ := ih hmore
      simp only [Bool.or_eq_true, decide_eq_true_eq, not_or, not_lt] at hplain
      exact ⟨_, .cons (.plain (fun hc => hquote hc) hplain.2 hplain.1) htext, by simp⟩
  · rintro ⟨text, htext, rfl⟩
    induction htext with
    | nil => rfl
    | cons hp _ ih => rw [List.append_assoc, pieces_of_pieceSpelt hp, ih, Option.map_some]

/-! ## Characters -/

/-- A character as one piece, or as the two units of a surrogate pair. -/
inductive CharSpelt : Char → List Char → Prop where
  | char {c : Char} {text : List Char} : PieceSpelt (.char c) text → CharSpelt c text
  | unit {c : Char} {text : List Char} : PieceSpelt (.unit c.toNat) text → CharSpelt c text
  | pair {h l : ℕ} {text more : List Char} : isHigh h = true → isLow l = true → PieceSpelt (.unit h) text →
      PieceSpelt (.unit l) more →
      CharSpelt (Char.ofNat (0x10000 + (h - 0xD800) * 0x400 + (l - 0xDC00))) (text ++ more)

/-- Characters one after the other. -/
inductive TextSpelt : List Char → List Char → Prop where
  | nil : TextSpelt [] []
  | cons {c : Char} {cs text more : List Char} : CharSpelt c text → TextSpelt cs more →
      TextSpelt (c :: cs) (text ++ more)

theorem hexValue?_lt {c : Char} {n : ℕ} (h : hexValue? c = some n) : n < 16 := by
  have hrange {a b : Char} (hc : (decide (a ≤ c) && decide (c ≤ b)) = true) : a.toNat ≤ c.toNat ∧ c.toNat ≤ b.toNat := by
    simpa [Char.le_def, UInt32.le_iff_toNat_le] using hc
  unfold hexValue? at h
  split_ifs at h with h₁ h₂ h₃ <;> cases h
  · have := hrange h₁
    simp only [Char.reduceToNat] at this
    omega
  · have := hrange h₂
    simp only [Char.reduceToNat] at this
    omega
  · have := hrange h₃
    simp only [Char.reduceToNat] at this
    omega

theorem unit?_lt {a b c d : Char} {n : ℕ} (h : unit? a b c d = some n) : n < 0x10000 := by
  obtain ⟨a, ha, h⟩ := Option.bind_eq_some_iff.1 h
  obtain ⟨b, hb, h⟩ := Option.bind_eq_some_iff.1 h
  obtain ⟨c, hc, h⟩ := Option.bind_eq_some_iff.1 h
  obtain ⟨d, hd, h⟩ := Option.bind_eq_some_iff.1 h
  cases h
  have := hexValue?_lt ha
  have := hexValue?_lt hb
  have := hexValue?_lt hc
  have := hexValue?_lt hd
  omega

/-- No character is a surrogate. -/
theorem not_surrogate (c : Char) : isHigh c.toNat = false ∧ isLow c.toNat = false := by
  have hvalid : c.toNat < 0xD800 ∨ 0xDFFF < c.toNat ∧ c.toNat < 0x110000 := c.valid
  simp only [isHigh, isLow, Bool.and_eq_false_iff, decide_eq_false_iff_not]
  omega

/-- A unit that is no surrogate is the one of a character. -/
theorem toNat_ofNat_of_not_surrogate {n : ℕ} (hlt : n < 0x10000) (hhigh : ¬ isHigh n = true) (hlow : ¬ isLow n = true) :
    (Char.ofNat n).toNat = n := by
  simp only [isHigh, isLow, Bool.and_eq_true, decide_eq_true_eq] at hhigh hlow
  have hvalid : n.isValidChar := by
    unfold Nat.isValidChar
    omega
  rw [Char.ofNat, dif_pos hvalid]
  rfl

/-- The pieces of a character come back as the character, whatever pieces follow. -/
theorem CharSpelt.exists_pieces {c : Char} {text : List Char} (h : CharSpelt c text) :
    ∃ ps, PiecesSpelt ps text ∧ ∀ qs, join (ps ++ qs) = (join qs).map (c :: ·) := by
  cases h with
  | char hp =>
    refine ⟨[.char c], List.append_nil text ▸ .cons hp .nil, fun qs => ?_⟩
    rw [List.singleton_append, join]
  | unit hp =>
    refine ⟨[.unit c.toNat], List.append_nil text ▸ .cons hp .nil, fun qs => ?_⟩
    obtain ⟨hhigh, hlow⟩ := not_surrogate c
    simp [join.eq_def (.unit _ :: _), hhigh, hlow]
  | @pair high low text more hhigh hlow hp hq =>
    refine ⟨[.unit high, .unit low], List.append_nil more ▸ .cons hp (.cons hq .nil), fun qs => ?_⟩
    rw [List.cons_append, List.singleton_append, join, if_pos hhigh, if_pos hlow]

/-- What pieces come to is spelt by them. -/
theorem PiecesSpelt.textSpelt {ps : List Piece} {text chars : List Char} (h : PiecesSpelt ps text)
    (hjoin : join ps = some chars) : TextSpelt chars text := by
  fun_induction join ps generalizing text chars with
  | case1 =>
    cases hjoin
    cases h
    exact .nil
  | case2 c rest ih =>
    obtain ⟨cs, hcs, rfl⟩ := Option.map_eq_some_iff.1 hjoin
    cases h with
    | cons hp hrest => exact .cons (.char hp) (ih hrest hcs)
  | case3 high hhigh low rest hlow ih =>
    obtain ⟨cs, hcs, rfl⟩ := Option.map_eq_some_iff.1 hjoin
    cases h with
    | cons hp hrest =>
      cases hrest with
      | cons hq hrest =>
        rw [← List.append_assoc]
        exact .cons (.pair hhigh hlow hp hq) (ih hrest hcs)
  | case4 => cases hjoin
  | case5 => cases hjoin
  | case6 => cases hjoin
  | case7 n rest hhigh hlow ih =>
    obtain ⟨cs, hcs, rfl⟩ := Option.map_eq_some_iff.1 hjoin
    cases h with
    | cons hp hrest =>
      have hlt : n < 0x10000 := by
        cases hp with
        | unit hn => exact unit?_lt hn
      rw [← toNat_ofNat_of_not_surrogate hlt hhigh hlow] at hp
      exact .cons (.unit hp) (ih hrest hcs)

theorem TextSpelt.exists_pieces {chars text : List Char} (h : TextSpelt chars text) :
    ∃ ps, PiecesSpelt ps text ∧ join ps = some chars := by
  induction h with
  | nil => exact ⟨[], .nil, rfl⟩
  | cons hc _ ih =>
    obtain ⟨ps, hps, hjoin⟩ := hc.exists_pieces
    obtain ⟨qs, hqs, hrest⟩ := ih
    exact ⟨ps ++ qs, hps.append hqs, by rw [hjoin, hrest, Option.map_some]⟩

/-- The text before a quote is read, however it is spelt, and nothing else is. -/
theorem readText_eq_some_iff {cs rest : List Char} {s : String} :
    readText cs = some (s, rest) ↔ ∃ text, TextSpelt s.toList text ∧ cs = text ++ '"' :: rest := by
  constructor
  · intro h
    obtain ⟨⟨ps, rest'⟩, hps, h⟩ := Option.bind_eq_some_iff.1 h
    obtain ⟨chars, hjoin, h⟩ := Option.bind_eq_some_iff.1 h
    cases h
    obtain ⟨text, htext, rfl⟩ := pieces_eq_some_iff.1 hps
    exact ⟨text, by rw [String.toList_ofList]; exact htext.textSpelt hjoin, rfl⟩
  · rintro ⟨text, htext, rfl⟩
    obtain ⟨ps, hps, hjoin⟩ := htext.exists_pieces
    have hread : pieces (text ++ '"' :: rest) = some (ps, rest) := pieces_eq_some_iff.2 ⟨text, hps, rfl⟩
    rw [readText, hread]
    simp only [Option.bind_eq_bind, Option.bind_some, hjoin, String.ofList_toList, Option.pure_def]

/-- What is spelt with single units alone, as the printer spells it. -/
theorem Spelt.textSpelt {chars text : List Char} (h : Spelt chars text) : TextSpelt chars text := by
  induction h with
  | nil => exact .nil
  | plain hquote hslash hcontrol _ ih => exact .cons (.char (.plain hquote hslash hcontrol)) ih
  | letter he _ ih => exact .cons (.char (.letter he)) ih
  | unit hn _ ih => exact .cons (.unit (.unit hn)) ih

/-! ## Numerals -/

/-- What a numeral looks like. -/
inductive NumeralSpelt : Numeral → List Char → Prop where
  | numeral {negative : Bool} {whole fraction power : List Char} {f : Option (List Char)} {e : Option ℤ} :
      Whole whole → Fraction fraction → Power power → (f = none ↔ fraction = []) → (e = none ↔ power = []) →
      NumeralSpelt ⟨negative, whole, f, e⟩ ((if negative then ['-'] else []) ++ (whole ++ fraction ++ power))

/-- What may follow a number that has neither a fraction nor an exponent. -/
def Ends (rest : List Char) : Prop := ∀ c ∈ rest.head?, c.isDigit = false ∧ c ≠ '.' ∧ c ≠ 'e' ∧ c ≠ 'E'

theorem digits_spec (cs : List Char) :
    cs = (digits cs).1 ++ (digits cs).2 ∧ ∀ c ∈ (digits cs).1, '0' ≤ c ∧ c ≤ '9' := by
  refine ⟨List.takeWhile_append_dropWhile.symm, fun c hc => ?_⟩
  exact Decimal.Plain.isDigit_iff.1 (List.mem_takeWhile_imp hc)

theorem digits_append {ds rest : List Char} (hds : Decimal.Digits ds) (hrest : ∀ c ∈ rest.head?, c.isDigit = false) :
    digits (ds ++ rest) = (ds, rest) := by
  have hdigit := Decimal.Plain.Digits.isDigit hds
  have hend : rest.takeWhile Char.isDigit = [] ∧ rest.dropWhile Char.isDigit = rest := by
    cases rest with
    | nil => exact ⟨rfl, rfl⟩
    | cons c rest =>
      have hc : ¬ c.isDigit = true := by simpa using hrest c rfl
      exact ⟨List.takeWhile_cons_of_neg hc, List.dropWhile_cons_of_neg hc⟩
  rw [digits, List.takeWhile_append_of_pos hdigit, List.dropWhile_append_of_pos hdigit, hend.1, hend.2, List.append_nil]

theorem fraction_of_readFraction {cs rest : List Char} {f : Option (List Char)}
    (h : readFraction cs = some (f, rest)) :
    ∃ fraction, Fraction fraction ∧ (f = none ↔ fraction = []) ∧ cs = fraction ++ rest := by
  unfold readFraction at h
  split at h
  · rename_i cs'
    obtain ⟨hcs, hdigits⟩ := digits_spec cs'
    split at h
    · cases h
    · rename_i ds rest' hne heq
      cases h
      rw [heq] at hcs hdigits
      exact ⟨'.' :: ds, .some ⟨hne, hdigits⟩, by simp, by rw [hcs]; rfl⟩
  · cases h
    exact ⟨[], .none, by simp, rfl⟩

/-- The digits behind the sign of an exponent. -/
def readPower (negative : Bool) (cs : List Char) : Option (Option ℤ × List Char) :=
  match digits cs with
  | ([], _) => none
  | (ds, rest) => some (some (if negative then -(Nat.ofDigitChars 10 ds 0 : ℤ) else Nat.ofDigitChars 10 ds 0), rest)

theorem readExponent_of_mark {mark : Char} (hmark : mark = 'e' ∨ mark = 'E') (cs : List Char) :
    ∃ sign cs' negative, sign ∈ [[], ['+'], ['-']] ∧ cs = sign ++ cs' ∧
      readExponent (mark :: cs) = readPower negative cs' := by
  by_cases hminus : ∃ rest, cs = '-' :: rest
  · obtain ⟨rest, rfl⟩ := hminus
    exact ⟨['-'], rest, true, by simp, rfl, by simp [readExponent, hmark]; rfl⟩
  by_cases hplus : ∃ rest, cs = '+' :: rest
  · obtain ⟨rest, rfl⟩ := hplus
    exact ⟨['+'], rest, false, by simp, rfl, by simp [readExponent, hmark]; rfl⟩
  refine ⟨[], cs, false, by simp, rfl, ?_⟩
  cases cs with
  | nil =>
    simp [readExponent, hmark]
    rfl
  | cons c cs =>
    have hc : c ≠ '-' ∧ c ≠ '+' := by
      constructor
      · rintro rfl
        exact hminus ⟨cs, rfl⟩
      · rintro rfl
        exact hplus ⟨cs, rfl⟩
    simp [readExponent, hmark, hc]
    rfl

theorem power_of_readExponent {cs rest : List Char} {e : Option ℤ} (h : readExponent cs = some (e, rest)) :
    ∃ power, Power power ∧ (e = none ↔ power = []) ∧ cs = power ++ rest := by
  cases cs with
  | nil =>
    cases h
    exact ⟨[], .none, by simp, rfl⟩
  | cons mark cs =>
    by_cases hmark : mark = 'e' ∨ mark = 'E'
    · obtain ⟨sign, cs', negative, hsign, hcs, hread⟩ := readExponent_of_mark hmark cs
      obtain ⟨hdigits, hall⟩ := digits_spec cs'
      rw [hread, readPower] at h
      split at h
      · cases h
      · rename_i ds rest' hne heq
        cases h
        rw [heq] at hdigits hall
        refine ⟨mark :: sign ++ ds, .some (by simpa using hmark) hsign ⟨hne, hall⟩, by simp, ?_⟩
        rw [hcs, hdigits]
        simp
    · have hnone : readExponent (mark :: cs) = some (none, mark :: cs) := by
        simp [readExponent, hmark]
      rw [hnone] at h
      cases h
      exact ⟨[], .none, by simp, rfl⟩

/-- The digits and what follows them, behind the sign. -/
def readMagnitude (negative : Bool) (cs : List Char) : Option (Numeral × List Char) := do
  let (whole, cs) := digits cs
  if whole = [] ∨ whole.head? = some '0' ∧ whole.length ≠ 1 then none
  let (fraction, cs) ← readFraction cs
  let (exponent, cs) ← readExponent cs
  return (⟨negative, whole, fraction, exponent⟩, cs)

theorem readNumeral_minus (cs : List Char) : readNumeral ('-' :: cs) = readMagnitude true cs := rfl

theorem readNumeral_of_ne {cs : List Char} (h : ∀ rest, cs ≠ '-' :: rest) : readNumeral cs = readMagnitude false cs := by
  unfold readNumeral
  split
  rename_i negative cs' heq
  split at heq
  · exact absurd rfl (h _)
  · cases heq
    rfl

theorem numeralSpelt_of_readMagnitude {negative : Bool} {cs rest : List Char} {n : Numeral}
    (h : readMagnitude negative cs = some (n, rest)) :
    ∃ text, NumeralSpelt n ((if negative then ['-'] else []) ++ text) ∧ cs = text ++ rest := by
  obtain ⟨hcs, hdigits⟩ := digits_spec cs
  unfold readMagnitude at h
  generalize digits cs = split at h hcs hdigits
  obtain ⟨whole, cs'⟩ := split
  dsimp only at h hcs hdigits
  by_cases hwhole : whole = [] ∨ whole.head? = some '0' ∧ whole.length ≠ 1
  · rw [if_pos hwhole] at h
    cases h
  rw [if_neg hwhole] at h
  obtain ⟨⟨f, cs₁⟩, hf, h⟩ := Option.bind_eq_some_iff.1 h
  obtain ⟨⟨e, cs₂⟩, he, h⟩ := Option.bind_eq_some_iff.1 h
  cases h
  obtain ⟨fraction, hfraction, hfnone, rfl⟩ := fraction_of_readFraction hf
  obtain ⟨power, hpower, henone, rfl⟩ := power_of_readExponent he
  rw [not_or, not_and, not_not] at hwhole
  have hsingle : whole.head? = some '0' → whole = ['0'] := by
    intro hhead
    obtain ⟨c, rfl⟩ := List.length_eq_one_iff.1 (hwhole.2 hhead)
    rw [List.head?_cons, Option.some_inj] at hhead
    rw [hhead]
  refine ⟨whole ++ fraction ++ power, .numeral ⟨⟨hwhole.1, hdigits⟩, hsingle⟩ hfraction hpower hfnone henone, ?_⟩
  rw [hcs, List.append_assoc, List.append_assoc]

/-- A numeral is what was read. -/
theorem numeralSpelt_of_readNumeral {cs rest : List Char} {n : Numeral} (h : readNumeral cs = some (n, rest)) :
    ∃ text, NumeralSpelt n text ∧ cs = text ++ rest := by
  by_cases hminus : ∃ cs', cs = '-' :: cs'
  · obtain ⟨cs', rfl⟩ := hminus
    obtain ⟨text, htext, rfl⟩ := numeralSpelt_of_readMagnitude (readNumeral_minus cs' ▸ h)
    exact ⟨_, htext, rfl⟩
  · rw [readNumeral_of_ne fun rest hcs => hminus ⟨rest, hcs⟩] at h
    obtain ⟨text, htext, rfl⟩ := numeralSpelt_of_readMagnitude h
    exact ⟨_, htext, rfl⟩

/-! ## Integers -/

/-- An integer that 64 bits hold, signed or not, written with digits alone. There is no minus sign in front
of a zero. -/
inductive Literal : ℤ → List Char → Prop where
  | unsigned {ds : List Char} : Whole ds → Nat.ofDigitChars 10 ds 0 < 2 ^ 64 → Literal (Nat.ofDigitChars 10 ds 0) ds
  | negative {ds : List Char} : Whole ds → 0 < Nat.ofDigitChars 10 ds 0 → Nat.ofDigitChars 10 ds 0 ≤ 2 ^ 63 →
      Literal (-Nat.ofDigitChars 10 ds 0) ('-' :: ds)

/-- Digits are taken in to the last one if the number they make stays below the limit. -/
theorem takeIn_of_lt {ds : List Char} {n : ℕ} (h : Nat.ofDigitChars 10 ds n < 2 ^ 64) :
    takeIn n ds = (Nat.ofDigitChars 10 ds n, []) := by
  induction ds generalizing n with
  | nil => rfl
  | cons d ds ih =>
    rw [Nat.ofDigitChars_cons] at h ⊢
    have hnext : 10 * n + (d.toNat - 48) < 2 ^ 64 := lt_of_le_of_lt (Decimal.le_ofDigitChars ds _) h
    rw [takeIn]
    exact (if_pos hnext).trans (ih h)

theorem lt_of_takeIn {ds : List Char} {n m : ℕ} (hn : n < 2 ^ 64) (h : takeIn n ds = (m, [])) :
    m = Nat.ofDigitChars 10 ds n ∧ m < 2 ^ 64 := by
  induction ds generalizing n with
  | nil =>
    cases h
    exact ⟨rfl, hn⟩
  | cons d ds ih =>
    rw [takeIn] at h
    split_ifs at h with hnext
    · rw [Nat.ofDigitChars_cons]
      exact ih hnext h
    · cases h

/-- Digits within the limits are an integer. -/
theorem ofNumeral?_integer {negative : Bool} {ds : List Char} (hlt : Nat.ofDigitChars 10 ds 0 < 2 ^ 64)
    (hneg : negative = true → 0 < Nat.ofDigitChars 10 ds 0 ∧ Nat.ofDigitChars 10 ds 0 ≤ 2 ^ 63) :
    ofNumeral? ⟨negative, ds, none, none⟩ =
      some (.integer (if negative then -Nat.ofDigitChars 10 ds 0 else Nat.ofDigitChars 10 ds 0)) := by
  have hrange : if negative then 0 < Nat.ofDigitChars 10 ds 0 ∧ Nat.ofDigitChars 10 ds 0 ≤ 2 ^ 63 else True := by
    split_ifs with hn
    exact hneg hn
  simp only [ofNumeral?, takeIn_of_lt hlt, true_and]
  rw [if_pos hrange]

variable {n : Numeral} {text rest : List Char} {i : ℤ}

theorem not_isDigit_minus : ¬ ('0' ≤ '-' ∧ '-' ≤ '9') := by decide

/-- A numeral that looks like a literal is its integer. -/
theorem NumeralSpelt.ofNumeral? (h : NumeralSpelt n text) (hi : Literal i text) :
    Json.ofNumeral? n = some (.integer i) := by
  cases h with
  | @numeral negative whole fraction power f e hwhole hfraction hpower hf he =>
    -- neither a point nor an exponent mark stands among digits
    have digits {ds : List Char} (hds : Decimal.Digits ds) (heq : whole ++ fraction ++ power = ds) :
        whole = ds ∧ f = none ∧ e = none := by
      have hfnil : fraction = [] := by
        cases hfraction with
        | none => rfl
        | some _ => exact absurd (hds.2 '.' (by rw [← heq]; simp)) (by decide)
      have hpnil : power = [] := by
        cases hpower with
        | none => rfl
        | @some mark _ _ hmark _ _ =>
          have hdigit := hds.2 mark (by rw [← heq]; simp)
          rcases List.mem_pair.1 hmark with rfl | rfl <;> exact absurd hdigit (by decide)
      refine ⟨?_, hf.2 hfnil, he.2 hpnil⟩
      rw [← heq, hfnil, hpnil, List.append_nil, List.append_nil]
    generalize htext : (if negative then ['-'] else []) ++ (whole ++ fraction ++ power) = text at hi
    cases hi with
    | unsigned hds hlt =>
      cases negative with
      | true => exact absurd (hds.1.2 '-' (by rw [← htext]; simp)) not_isDigit_minus
      | false =>
        obtain ⟨rfl, rfl, rfl⟩ := digits hds.1 htext
        exact ofNumeral?_integer hlt nofun
    | negative hds hpos hle =>
      cases negative with
      | true =>
        obtain ⟨rfl, rfl, rfl⟩ := digits hds.1 (List.cons.inj htext).2
        exact ofNumeral?_integer (by omega) fun _ => ⟨hpos, hle⟩
      | false =>
        have hminus : whole.head? = some '-' := by
          have hhead := congrArg List.head? htext
          rw [if_neg (by decide), List.nil_append, List.append_assoc, List.head?_append_of_ne_nil _ hwhole.1.1] at hhead
          exact hhead
        exact absurd (hwhole.1.2 '-' (List.mem_of_mem_head? hminus)) not_isDigit_minus

/-- A numeral that is an integer looks like a literal. -/
theorem NumeralSpelt.literal (h : NumeralSpelt n text) (hi : Json.ofNumeral? n = some (.integer i)) :
    Literal i text := by
  cases h with
  | @numeral negative whole fraction power f e hwhole hfraction hpower hf he =>
    obtain ⟨m, left, htake⟩ : ∃ m left, takeIn 0 whole = (m, left) := ⟨_, _, rfl⟩
    simp only [Json.ofNumeral?, htake] at hi
    rw [ite_eq_iff] at hi
    rcases hi with ⟨⟨rfl, rfl, rfl, hrange⟩, hi⟩ | ⟨-, hi⟩
    · obtain ⟨rfl, hlt⟩ := lt_of_takeIn (by norm_num) htake
      cases hi
      rw [hf.1 rfl, he.1 rfl, List.append_nil, List.append_nil]
      cases negative with
      | true => exact .negative hwhole hrange.1 hrange.2
      | false => exact .unsigned hwhole hlt
    · obtain ⟨x, -, hi⟩ := Option.bind_eq_some_iff.1 hi
      cases hi

theorem NumeralSpelt.written (h : NumeralSpelt n text) : Written text := by
  cases h with
  | @numeral negative _ _ _ _ _ hwhole hfraction hpower _ _ =>
    cases negative with
    | true => exact .negative (.magnitude hwhole hfraction hpower)
    | false => exact .unsigned (.magnitude hwhole hfraction hpower)

/-- A literal is read as its integer in front of whatever ends it. -/
theorem readNumeral_of_literal (h : Literal i text) (hrest : Ends rest) :
    ∃ n, readNumeral (text ++ rest) = some (n, rest) ∧ Json.ofNumeral? n = some (.integer i) := by
  have hfraction : readFraction rest = some (none, rest) := by
    unfold readFraction
    split
    · exact absurd rfl (hrest '.' rfl).2.1
    · rfl
  have hexponent : readExponent rest = some (none, rest) := by
    cases rest with
    | nil => rfl
    | cons c rest =>
      obtain ⟨-, -, he, hE⟩ := hrest c rfl
      simp [readExponent, he, hE]
  have magnitude (negative : Bool) {ds : List Char} (hds : Whole ds) :
      readMagnitude negative (ds ++ rest) = some (⟨negative, ds, none, none⟩, rest) := by
    have hwhole : ¬ (ds = [] ∨ ds.head? = some '0' ∧ ds.length ≠ 1) := by
      rintro (hnil | ⟨hhead, hlength⟩)
      · exact hds.1.1 hnil
      · rw [hds.2 hhead] at hlength
        exact hlength rfl
    rw [readMagnitude, digits_append hds.1 fun c hc => (hrest c hc).1]
    dsimp only
    rw [if_neg hwhole, hfraction]
    simp only [Option.bind_eq_bind, Option.bind_some, hexponent, Option.pure_def]
  cases h with
  | unsigned hds hlt =>
    refine ⟨⟨false, text, none, none⟩, ?_, ofNumeral?_integer hlt nofun⟩
    rw [readNumeral_of_ne, magnitude false hds]
    intro rest' heq
    obtain ⟨d, ds, rfl⟩ := List.exists_cons_of_ne_nil hds.1.1
    rw [List.cons_append, List.cons.injEq] at heq
    exact not_isDigit_minus (heq.1 ▸ hds.1.2 d List.mem_cons_self)
  | @negative ds hds hpos hle =>
    refine ⟨⟨true, ds, none, none⟩, ?_, ofNumeral?_integer (by omega) fun _ => ⟨hpos, hle⟩⟩
    rw [List.cons_append, readNumeral_minus, magnitude true hds]

end TradeLedger.Json

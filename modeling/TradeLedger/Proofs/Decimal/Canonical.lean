/-
The text of an admitted figure is its canonical form. It is printed with a minus sign exactly if the
number is negative, without redundant zeros before the point, and with as many digits behind it as
the measure says; the gateway and the reader of stored decimals both read it as the decimal that it
is the text of; and two admitted texts come to one such text exactly if their numbers round alike.

Zeros put in front of a figure or behind its fraction do not change its number, so a request in which
figures are padded with them is appended as the request itself is.
-/
import TradeLedger.Proofs.Json
import TradeLedger.Proofs.Request
import TradeLedger.Store.Memory

namespace TradeLedger

namespace Decimal

/-! ## The form of printed text -/

/-- How a number is printed at a scale. -/
def PrintedAt (scale : ℕ) (x : ℚ) (s : String) : Prop :=
  ∃ whole fraction, Json.Whole whole ∧ Digits fraction ∧ fraction.length = scale ∧
    s.toList = (if x < 0 then ['-'] else []) ++ whole ++ '.' :: fraction

/-- A zero stands in front of digits only to make up their length. -/
theorem length_padded_of_head? (length n : ℕ) (hl : 0 < length) (h : (padded length n).head? = some '0') :
    (padded length n).length = length := by
  have hlength : (padded length n).length = length - (Nat.toDigits 10 n).length + (Nat.toDigits 10 n).length := by
    simp [padded]
  rcases Nat.lt_or_ge length (Nat.toDigits 10 n).length with hlt | hle
  · have hzero : length - (Nat.toDigits 10 n).length = 0 := by omega
    simp only [padded, hzero, List.replicate_zero, List.nil_append] at h
    rcases Nat.eq_zero_or_pos n with rfl | hn
    · simp only [Nat.toDigits_zero, List.length_singleton] at hlt
      omega
    · exact absurd h (Json.head?_toDigits hn)
  · omega

/-- Behind the sign stand the digits of the coefficient, parted where the scale says. -/
theorem unsignedChars_eq {d : Decimal} (h : 0 < d.scale) :
    ∃ whole fraction, Json.Whole whole ∧ Digits fraction ∧ fraction.length = d.scale ∧
      d.unsignedChars = whole ++ '.' :: fraction ∧ Nat.ofDigitChars 10 (whole ++ fraction) 0 = d.coefficient := by
  have hdigits := isDigit_padded (d.scale + 1) d.coefficient
  have hnumber := ofDigitChars_padded (d.scale + 1) d.coefficient
  have hlength := le_length_padded (d.scale + 1) d.coefficient
  have hzero := length_padded_of_head? (d.scale + 1) d.coefficient (by omega)
  rw [unsignedChars]
  generalize padded (d.scale + 1) d.coefficient = ds at *
  have hdigit : ∀ c ∈ ds, '0' ≤ c ∧ c ≤ '9' := fun c hc => Plain.isDigit_iff.1 (hdigits c hc)
  refine ⟨ds.take (ds.length - d.scale), ds.drop (ds.length - d.scale), ⟨⟨?_, ?_⟩, ?_⟩, ⟨?_, ?_⟩, ?_, ?_, ?_⟩
  · rw [ne_eq, List.take_eq_nil_iff, not_or]
    exact ⟨by omega, by rintro rfl; simp at hlength⟩
  · exact fun c hc => hdigit c (List.mem_of_mem_take hc)
  · intro hhead
    rw [List.head?_take, if_neg (by omega)] at hhead
    -- the zero in front makes up the length, so it is the only digit before the point
    obtain ⟨rest, rfl⟩ := List.head?_eq_some_iff.1 hhead
    rw [hzero hhead]
    simp
  · rw [ne_eq, List.drop_eq_nil_iff]
    omega
  · exact fun c hc => hdigit c (List.mem_of_mem_drop hc)
  · rw [List.length_drop]
    omega
  · exact if_neg h.ne'
  · rw [List.take_append_drop, hnumber]

variable {d : Decimal}

theorem Signed.printedAt (hd : d.Signed) (h : 0 < d.scale) : PrintedAt d.scale d.value d.text := by
  obtain ⟨whole, fraction, hwhole, hfraction, hlength, hchars, -⟩ := unsignedChars_eq h
  refine ⟨whole, fraction, hwhole, hfraction, hlength, ?_⟩
  rw [text, String.toList_ofList, chars_eq, hchars]
  by_cases hn : d.negative = true
  · rw [if_pos hn, if_pos (hd.neg_iff.1 hn)]
    rfl
  · rw [if_neg hn, if_neg fun hv => hn (hd.neg_iff.2 hv)]
    rfl

/-- The text of a decimal denotes its number. -/
theorem spells_text (h : 0 < d.scale) : Spells d.text d.value := by
  obtain ⟨whole, fraction, hwhole, hfraction, hlength, hchars, hcoefficient⟩ := unsignedChars_eq h
  have hdenotes : Denotes d.unsignedChars d.magnitude := by
    have := Denotes.fraction hwhole.1 hfraction
    rw [hchars, magnitude, ← hcoefficient, ofDigitChars_append_zero, hlength]
    rw [hlength] at this
    push_cast
    rwa [add_div, mul_div_cancel_right₀ _ (by positivity)]
  have htext : d.text.toList = if d.negative then '-' :: d.unsignedChars else d.unsignedChars := by
    rw [text, String.toList_ofList, chars_eq]
  unfold value
  split_ifs at htext ⊢ with hn
  · exact .negative htext hdenotes
  · exact .unsigned (htext ▸ hdenotes)

/-- A decimal with no more fraction digits is not changed by rounding. -/
theorem roundTo_value {places : ℕ} (h : d.scale ≤ places) : roundTo places d.value = d.value := by
  rw [value, roundTo_signed, magnitude, roundTo_div d.coefficient h]

/-! ## Padding -/

/-- The same digits with zeros in front, and with zeros behind their fraction. A text without a fraction
may be given one of zeros. -/
inductive Padded : String → String → Prop where
  | whole {sign ds : List Char} (front : ℕ) : sign ∈ [[], ['-']] → Digits ds →
      Padded (String.ofList (sign ++ ds)) (String.ofList (sign ++ (List.replicate front '0' ++ ds)))
  | point {sign ds : List Char} (front behind : ℕ) : sign ∈ [[], ['-']] → Digits ds →
      Padded (String.ofList (sign ++ ds))
        (String.ofList (sign ++ (List.replicate front '0' ++ ds ++ '.' :: List.replicate (behind + 1) '0')))
  | fraction {sign ds fs : List Char} (front behind : ℕ) : sign ∈ [[], ['-']] → Digits ds → Digits fs →
      Padded (String.ofList (sign ++ (ds ++ '.' :: fs)))
        (String.ofList (sign ++ (List.replicate front '0' ++ ds ++ '.' :: (fs ++ List.replicate behind '0'))))

theorem digits_append_zeros {ds : List Char} (h : Digits ds) (n : ℕ) : Digits (ds ++ List.replicate n '0') := by
  refine ⟨by simp [h.1], fun c hc => ?_⟩
  rcases List.mem_append.1 hc with hc | hc
  · exact h.2 c hc
  · rw [List.eq_of_mem_replicate hc]
    decide

theorem ofDigitChars_zeros_append (n : ℕ) (ds : List Char) :
    Nat.ofDigitChars 10 (List.replicate n '0' ++ ds) 0 = Nat.ofDigitChars 10 ds 0 := by
  rw [Nat.ofDigitChars_append, Nat.ofDigitChars_replicate_zero, Nat.mul_zero]

theorem ofDigitChars_append_zeros (ds : List Char) (n : ℕ) :
    Nat.ofDigitChars 10 (ds ++ List.replicate n '0') 0 = Nat.ofDigitChars 10 ds 0 * 10 ^ n := by
  rw [ofDigitChars_append_zero, List.length_replicate, Nat.ofDigitChars_replicate_zero, Nat.mul_zero, Nat.add_zero]

/-- A sign in front of two texts of one number leaves them texts of one number. -/
theorem Spells.transfer {sign cs cs' : List Char} {q : ℚ} (hsign : sign ∈ [[], ['-']]) {r : ℚ}
    (hcs : Denotes cs r) (hcs' : Denotes cs' r) (h : Spells (String.ofList (sign ++ cs)) q) :
    Spells (String.ofList (sign ++ cs')) q := by
  rcases List.mem_pair.1 hsign with rfl | rfl
  · have hr : Spells (String.ofList ([] ++ cs)) r := .unsigned (by rwa [String.toList_ofList])
    rw [Plain.spells_unique h hr]
    exact .unsigned (by rwa [String.toList_ofList])
  · have hr : Spells (String.ofList (['-'] ++ cs)) (-r) := .negative String.toList_ofList hcs
    rw [Plain.spells_unique h hr]
    exact .negative String.toList_ofList hcs'

/-- Padding keeps the number. -/
theorem Padded.spells {s t : String} {q : ℚ} (h : Padded s t) (hs : Spells s q) : Spells t q := by
  cases h with
  | whole front hsign hds =>
    have hpadded := Denotes.whole (Json.digits_zeros_append hds front)
    rw [ofDigitChars_zeros_append] at hpadded
    exact Spells.transfer hsign (.whole hds) hpadded hs
  | point front behind hsign hds =>
    have hzeros : Digits (List.replicate (behind + 1) '0') := by
      refine ⟨by simp, fun c hc => ?_⟩
      rw [List.eq_of_mem_replicate hc]
      decide
    have hpadded := Denotes.fraction (Json.digits_zeros_append hds front) hzeros
    rw [ofDigitChars_zeros_append, Nat.ofDigitChars_replicate_zero, Nat.mul_zero, Nat.cast_zero, zero_div,
      add_zero] at hpadded
    exact Spells.transfer hsign (.whole hds) hpadded hs
  | fraction front behind hsign hds hfs =>
    have hpadded := Denotes.fraction (Json.digits_zeros_append hds front) (digits_append_zeros hfs behind)
    rw [ofDigitChars_zeros_append, ofDigitChars_append_zeros, List.length_append, List.length_replicate, pow_add,
      Nat.cast_mul, Nat.cast_pow, Nat.cast_ofNat, mul_div_mul_right _ _ (by positivity)] at hpadded
    exact Spells.transfer hsign (.fraction hds hfs) hpadded hs

end Decimal

/-! ## Admitted figures -/

namespace Measure

variable {m : Measure} {s t : String} {d e : Decimal}

theorem scale_pos (m : Measure) : 0 < m.scale := by cases m <;> decide

/-- What is admitted is admitted again from its own text. -/
theorem acceptText_text (h : m.acceptText s = .ok d) : m.acceptText d.text = .ok d := by
  obtain ⟨q, -, hdigits, hrange, hscale, hvalue, hd⟩ := acceptText_iff.1 h
  have hround : roundTo m.scale d.value = d.value := Decimal.roundTo_value hscale.le
  refine acceptText_iff.2 ⟨d.value, Decimal.spells_text (hscale ▸ m.scale_pos), ?_, ?_, hscale, hround.symm, hd⟩
  · rwa [hround, hvalue]
  · rwa [hround, hvalue]

/-- Two texts are admitted as one decimal exactly if their numbers round alike. -/
theorem eq_iff_roundTo_eq (hs : m.acceptText s = .ok d) (ht : m.acceptText t = .ok e) :
    ∃ q r, Decimal.Spells s q ∧ Decimal.Spells t r ∧ (d = e ↔ roundTo m.scale q = roundTo m.scale r) := by
  obtain ⟨q, hq, -, -, hscale, hvalue, hd⟩ := acceptText_iff.1 hs
  obtain ⟨r, hr, -, -, hscale', hvalue', he⟩ := acceptText_iff.1 ht
  refine ⟨q, r, hq, hr, ?_⟩
  rw [← hvalue, ← hvalue']
  constructor
  · rintro rfl
    rfl
  · intro hv
    exact Decimal.eq_of_value_eq (hscale.trans hscale'.symm) hv hd he

/-- Padded text is admitted for the same decimal. -/
theorem acceptText_padded (hst : Decimal.Padded s t) (h : m.acceptText s = .ok d) : m.acceptText t = .ok d := by
  obtain ⟨q, hq, hadmitted⟩ := acceptText_iff.1 h
  exact acceptText_iff.2 ⟨q, hst.spells hq, hadmitted⟩

end Measure

/-! ## Padded requests -/

/-- The same figure, or its text padded. -/
inductive Figure.Padded : Figure → Figure → Prop where
  | same (f : Figure) : Padded f f
  | text {s t : String} : Decimal.Padded s t → Padded (.text s) (.text t)

namespace Field

variable {field : String} {m : Measure} {id : Option Uuid}

theorem figure_padded {f g : Figure} {d : Decimal} (hfg : f.Padded g) (h : figure field m id f = .ok d) :
    figure field m id g = .ok d := by
  cases hfg with
  | same => exact h
  | text hst =>
    have hread := Measure.acceptText_padded hst (reads_figure h)
    rw [figure, Measure.accept, hread]

theorem optionalFigure_padded {o p : Option Figure} {d : Option Decimal} (hop : Option.Rel Figure.Padded o p)
    (h : optionalFigure field m id o = .ok d) : optionalFigure field m id p = .ok d := by
  cases hop with
  | none => exact h
  | some hfg =>
    obtain ⟨x, hx, h⟩ := Codec.bind_eq_ok h
    exact (Codec.bind_ok (figure_padded hfg hx)).trans h

end Field

namespace Request

/-- The same request with any of its figures padded. -/
inductive Padded : Request → Request → Prop where
  | signal {r : SignalRequest} {price : Option Figure} {quantity : Figure} :
      Option.Rel Figure.Padded r.price price → r.quantity.Padded quantity →
      Padded (.signal r) (.signal { r with price, quantity })
  | deliberation {r : DeliberationRequest} {confidence : Figure} : r.confidence.Padded confidence →
      Padded (.deliberation r) (.deliberation { r with confidence })
  | execution {r : ExecutionRequest} {quantity : Figure} {price : Option Figure} :
      r.quantity.Padded quantity → Option.Rel Figure.Padded r.price price →
      Padded (.execution r) (.execution { r with quantity, price })
  | event {r : EventRequest} {fillQuantity fillPrice equity : Option Figure} :
      Option.Rel Figure.Padded r.fillQuantity fillQuantity → Option.Rel Figure.Padded r.fillPrice fillPrice →
      Option.Rel Figure.Padded r.equity equity →
      Padded (.event r) (.event { r with fillQuantity, fillPrice, equity })

variable {r r' : Request} {entry : Entry}

theorem table_padded (h : r.Padded r') : r'.table = r.table := by cases h <;> rfl

/-- A request that passes its checks passes them with its figures padded, and asks for the same. -/
theorem entry_padded (hr : r.Padded r') (h : r.entry = .ok entry) : r'.entry = .ok entry := by
  cases hr with
  | signal hprice hquantity =>
    obtain ⟨f, hf, h⟩ := Codec.bind_eq_ok h
    refine (Codec.bind_ok ?_).trans h
    obtain ⟨_, hkey, hf⟩ := Codec.bind_eq_ok hf
    obtain ⟨_, hsymbol, hf⟩ := Codec.bind_eq_ok hf
    obtain ⟨q, hq, hf⟩ := Codec.bind_eq_ok hf
    obtain ⟨p, hp, hf⟩ := Codec.bind_eq_ok hf
    exact (Codec.bind_ok hkey).trans ((Codec.bind_ok hsymbol).trans
      ((Codec.bind_ok (Field.figure_padded hquantity hq)).trans
        ((Codec.bind_ok (Field.optionalFigure_padded hprice hp)).trans hf)))
  | deliberation hconfidence =>
    obtain ⟨d, hd, h⟩ := Codec.bind_eq_ok h
    refine (Codec.bind_ok ?_).trans h
    obtain ⟨_, hmodel, hd⟩ := Codec.bind_eq_ok hd
    obtain ⟨c, hc, hd⟩ := Codec.bind_eq_ok hd
    exact (Codec.bind_ok hmodel).trans ((Codec.bind_ok (Field.figure_padded hconfidence hc)).trans hd)
  | execution hquantity hprice =>
    obtain ⟨e, he, h⟩ := Codec.bind_eq_ok h
    refine (Codec.bind_ok ?_).trans h
    obtain ⟨_, hsymbol, he⟩ := Codec.bind_eq_ok he
    obtain ⟨_, horder, he⟩ := Codec.bind_eq_ok he
    obtain ⟨q, hq, he⟩ := Codec.bind_eq_ok he
    obtain ⟨p, hp, he⟩ := Codec.bind_eq_ok he
    exact (Codec.bind_ok hsymbol).trans ((Codec.bind_ok horder).trans
      ((Codec.bind_ok (Field.figure_padded hquantity hq)).trans
        ((Codec.bind_ok (Field.optionalFigure_padded hprice hp)).trans he)))
  | event hquantity hprice hequity =>
    obtain ⟨e, he, h⟩ := Codec.bind_eq_ok h
    refine (Codec.bind_ok ?_).trans h
    obtain ⟨q, hq, he⟩ := Codec.bind_eq_ok he
    obtain ⟨p, hp, he⟩ := Codec.bind_eq_ok he
    obtain ⟨x, hx, he⟩ := Codec.bind_eq_ok he
    exact (Codec.bind_ok (Field.optionalFigure_padded hquantity hq)).trans
      ((Codec.bind_ok (Field.optionalFigure_padded hprice hp)).trans
        ((Codec.bind_ok (Field.optionalFigure_padded hequity hx)).trans he))

end Request

namespace Running

variable {σ : Type} [Store σ]

/-- Appending looks at a request for its table and for what it asks for. -/
theorem append_congr (w : Running σ) (caller : Caller) (draws : Draws) {r r' : Request}
    (htable : r'.table = r.table) (hentry : r'.entry = r.entry) :
    w.append caller draws r' = w.append caller draws r := by
  unfold append launch Work.prepare Work.vet
  rw [htable, hentry]

end Running

/-! ## One text for one number -/

/-- The text of an admitted figure is printed at the scale of its measure, and both the gateway and the
reader of stored decimals read it as that figure. Two admitted texts come to the same text, and to the
same octets in a record, exactly if their numbers round alike; and however the figures of a request are
padded, appending it comes to the same. -/
theorem Measure.text_canonical :
    (∀ (m : Measure) (s : String) (d : Decimal), m.accept (.text s) = .ok d →
      Decimal.PrintedAt m.scale d.value d.text ∧
      m.accept (.text d.text) = .ok d ∧
      (∀ rest, Codec.decimal.read (Codec.text.write d.text ++ rest) = .ok (d, rest)) ∧
      ∀ (t : String) (e : Decimal), m.accept (.text t) = .ok e →
        ∃ q r, Decimal.Spells s q ∧ Decimal.Spells t r ∧
          (d.text = e.text ↔ roundTo m.scale q = roundTo m.scale r) ∧
          (Codec.decimal.write d = Codec.decimal.write e ↔ roundTo m.scale q = roundTo m.scale r)) ∧
    ∀ (σ : Type) [Store σ] (w : Running σ) (caller : Caller) (draws : Draws) (r r' : Request) (entry : Entry),
      r.Padded r' → r.entry = .ok entry → w.append caller draws r' = w.append caller draws r := by
  constructor
  · intro m s d hs
    obtain ⟨q, hq, -, -, hscale, -, hd⟩ := acceptText_iff.1 hs
    have hpos : 0 < d.scale := hscale ▸ m.scale_pos
    refine ⟨hscale ▸ hd.printedAt hpos, acceptText_text hs, fun rest => ?_, fun t e ht => ?_⟩
    · have hread := Codec.faithful_decimal.reads d trivial rest
      rwa [Decimal.unsignedZero_eq_self_iff.2 hd] at hread
    · obtain ⟨q, r, hq, hr, hround⟩ := eq_iff_roundTo_eq hs ht
      have hwrite : Codec.decimal.write d = Codec.decimal.write e ↔ d = e := by
        constructor
        · intro h
          exact (Codec.faithful_decimal.apart d e trivial trivial [] [] (by rw [h])).1
        · rintro rfl
          rfl
      exact ⟨q, r, hq, hr, Decimal.text_inj.trans hround, hwrite.trans hround⟩
  · intro σ _ w caller draws r r' entry hr h
    exact w.append_congr caller draws (Request.table_padded hr) ((Request.entry_padded hr h).trans h.symm)

/-- A loss of twelve units and thirty-four hundredths. -/
def loss : Decimal := ⟨true, 1234, 2, by decide, by decide⟩

/-- A signal to buy as much as a text says. -/
def bid (quantity : String) : Request :=
  .signal {
    dedupeKey := "alert-1"
    symbol := "BTCUSD"
    side := .buy
    price := none
    quantity := .text quantity
    request := []
    sourceAddress := none
    authenticated := true }

/-- A ledger over an empty store in memory. -/
def blank : Running Memory := ⟨.fresh {} .log, ⟨.empty, 0, [], []⟩⟩

/-- Two ties on either side of one even digit, and a padded quantity. -/
theorem Measure.text_canonical_loss :
    Measure.currency.accept (.text "-0012.345") = .ok loss ∧ Measure.currency.accept (.text "-12.335") = .ok loss ∧
      Decimal.PrintedAt 2 loss.value "-12.34" ∧ Measure.currency.accept (.text "-12.34") = .ok loss ∧
      Codec.decimal.read (Codec.text.write "-12.34" ++ [7]) = .ok (loss, [7]) ∧
      (∃ q r, Decimal.Spells "-0012.345" q ∧ Decimal.Spells "-12.335" r ∧ roundTo 2 q = roundTo 2 r) ∧
      ∃ entry, (bid "12.5").Padded (bid "0012.500") ∧ (bid "12.5").entry = .ok entry ∧
        blank.append ⟨"gateway", .ingestion⟩ ⟨Uuid.made 1 1, [Uuid.made 2 1]⟩ (bid "0012.500") =
          blank.append ⟨"gateway", .ingestion⟩ ⟨Uuid.made 1 1, [Uuid.made 2 1]⟩ (bid "12.5") := by
  obtain ⟨hfigures, hrequests⟩ := text_canonical
  have hs : Measure.currency.accept (.text "-0012.345") = .ok loss := by rfl
  have ht : Measure.currency.accept (.text "-12.335") = .ok loss := by rfl
  have htext : loss.text = "-12.34" := by rfl
  obtain ⟨hprinted, hagain, hread, hsame⟩ := hfigures _ _ _ hs
  obtain ⟨q, r, hq, hr, htexts, -⟩ := hsame _ _ ht
  rw [htext] at hprinted hagain hread
  have hwhole : Decimal.Digits ['1', '2'] :=
    ⟨by simp, List.forall_mem_cons.2 ⟨by decide, List.forall_mem_singleton.2 (by decide)⟩⟩
  have hfraction : Decimal.Digits ['5'] := ⟨by simp, List.forall_mem_singleton.2 (by decide)⟩
  have hpadded : (bid "12.5").Padded (bid "0012.500") :=
    .signal .none (.text (.fraction 2 2 (List.mem_pair.2 (.inl rfl)) hwhole hfraction))
  refine ⟨hs, ht, hprinted, hagain, hread [7], ⟨q, r, hq, hr, htexts.1 rfl⟩, _, hpadded, rfl, ?_⟩
  exact hrequests _ _ _ _ _ _ _ hpadded rfl

end TradeLedger

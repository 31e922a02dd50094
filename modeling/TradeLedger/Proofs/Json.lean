/-
Documents as they exist and their compact texts. In a document that is proper the keys of every object
increase in the order of their octets, at whatever level it stands, and every real number is one of
the format; whatever is read is proper. A compact text is said apart from the printer, by the grammar
of JSON without the blanks; what is printed of a proper document is one.
-/
import TradeLedger.Json.Canonical
import TradeLedger.Json.Reader
import TradeLedger.Proofs.Binary64
import TradeLedger.Proofs.Decimal.Plain

namespace TradeLedger.Json

/-! ## Proper documents -/

/-- The keys of the members, each of them before the next in the order of their octets. -/
def Increasing (members : List (String × Json)) : Prop :=
  (members.map Prod.fst).Pairwise fun k l => Bytes.ofText k < Bytes.ofText l

/-- Keys increase at every level, and every real number is one of the format. -/
inductive Proper : Json → Prop where
  | null : Proper .null
  | bool (b : Bool) : Proper (.bool b)
  | integer (i : ℤ) : Proper (.integer i)
  | real {x : Binary64} : x.Finite → Proper (.real x)
  | text (s : String) : Proper (.text s)
  | list {items : List Json} : (∀ j ∈ items, Proper j) → Proper (.list items)
  | object {members : List (String × Json)} : Increasing members → (∀ m ∈ members, Proper m.2) →
      Proper (.object members)

/-! ## Members in order -/

section Members

variable {k : String} {v : Json} {members : List (String × Json)}

theorem mem_put {m : String × Json} (h : m ∈ put k v members) : m = (k, v) ∨ m ∈ members := by
  induction members with
  | nil => exact .inl (List.mem_singleton.1 h)
  | cons first rest ih =>
    unfold put at h
    split_ifs at h
    · exact (List.mem_cons.1 h).imp_right (List.mem_cons_of_mem _)
    · exact List.mem_cons.1 h
    · rcases List.mem_cons.1 h with rfl | h
      · exact .inr List.mem_cons_self
      · exact (ih h).imp_right (List.mem_cons_of_mem _)

/-- Of two keys one comes before the other. -/
theorem ofText_lt_of_not_lt {k l : String} (hne : k ≠ l) (h : ¬ Bytes.ofText k < Bytes.ofText l) :
    Bytes.ofText l < Bytes.ofText k := by
  by_contra hnot
  have hread := congrArg Bytes.toText? (List.le_antisymm (List.not_lt.1 hnot) (List.not_lt.1 h))
  rw [Bytes.toText?_ofText, Bytes.toText?_ofText] at hread
  exact hne (Option.some.inj hread)

theorem Increasing.put (h : Increasing members) : Increasing (put k v members) := by
  induction members with
  | nil => exact List.pairwise_singleton _ _
  | cons first rest ih =>
    obtain ⟨l, w⟩ := first
    obtain ⟨hfirst, hrest⟩ := List.pairwise_cons.1 h
    unfold Json.put
    split_ifs with heq hbefore
    · subst heq
      exact List.pairwise_cons.2 ⟨hfirst, hrest⟩
    · have hkl : Bytes.ofText k < Bytes.ofText l := of_decide_eq_true hbefore
      refine List.pairwise_cons.2 ⟨fun key hkey => ?_, h⟩
      rcases List.mem_cons.1 hkey with rfl | hkey
      · exact hkl
      · exact List.lt_trans hkl (hfirst key hkey)
    · have hlk := ofText_lt_of_not_lt heq (of_decide_eq_false (Bool.eq_false_iff.2 hbefore))
      refine List.pairwise_cons.2 ⟨fun key hkey => ?_, ih hrest⟩
      obtain ⟨m, hm, rfl⟩ := List.mem_map.1 hkey
      rcases mem_put hm with rfl | hm
      · exact hlk
      · exact hfirst m.1 (List.mem_map_of_mem hm)

/-- However its members are written down, an object has them in order. -/
theorem proper_ofMembers (h : ∀ m ∈ members, m.2.Proper) : (ofMembers members).Proper := by
  have hfold (sorted : List (String × Json)) (hsorted : Increasing sorted) (hproper : ∀ m ∈ sorted, m.2.Proper) :
      (Json.object (members.foldl (fun sorted m => Json.put m.1 m.2 sorted) sorted)).Proper := by
    induction members generalizing sorted with
    | nil => exact .object hsorted hproper
    | cons first rest ih =>
      refine ih (List.forall_mem_of_forall_mem_cons h) _ hsorted.put fun m hm => ?_
      rcases mem_put hm with rfl | hm
      · exact h first List.mem_cons_self
      · exact hproper m hm
  exact hfold [] List.Pairwise.nil (by simp)

end Members

/-! ## What is read -/

section Reading

theorem finite_scaled {n : ℕ} {e : ℤ} {x : Binary64} (h : scaled? n e = some x) : x.Finite := by
  obtain ⟨y, -, h⟩ := Option.bind_eq_some_iff.1 h
  split_ifs at h
  · cases h
    exact Binary64.finite_zero
  · obtain ⟨z, -, h⟩ := Option.bind_eq_some_iff.1 h
    exact Binary64.finite_mul h
  · obtain ⟨z, -, h⟩ := Option.bind_eq_some_iff.1 h
    exact Binary64.finite_div h
  · obtain ⟨z, -, h⟩ := Option.bind_eq_some_iff.1 h
    obtain ⟨z', -, h⟩ := Option.bind_eq_some_iff.1 h
    obtain ⟨z'', -, h⟩ := Option.bind_eq_some_iff.1 h
    exact Binary64.finite_div h
  · cases h
    exact Binary64.finite_zero

theorem proper_ofNumeral {n : Numeral} {j : Json} (h : ofNumeral? n = some j) : j.Proper := by
  rw [ofNumeral?, ite_eq_iff] at h
  rcases h with ⟨-, h⟩ | ⟨-, h⟩
  · cases h
    exact .integer _
  · obtain ⟨x, hx, h⟩ := Option.bind_eq_some_iff.1 h
    cases h
    refine .real ?_
    split_ifs
    · exact (finite_scaled hx).neg
    · exact finite_scaled hx

variable {item : List Char → Option (Json × List Char)}
variable (hitem : ∀ cs j rest, item cs = some (j, rest) → j.Proper)

include hitem

theorem proper_readItems {most : ℕ} {cs rest : List Char} {items : List Json}
    (h : readItems item most cs = some (items, rest)) : ∀ j ∈ items, j.Proper := by
  induction most generalizing cs items rest with
  | zero => cases h
  | succ most ih =>
    obtain ⟨⟨x, cs'⟩, hx, h⟩ := Option.bind_eq_some_iff.1 h
    dsimp only at h
    split at h
    · cases h
      intro j hj
      rw [List.mem_singleton.1 hj]
      exact hitem _ _ _ hx
    · obtain ⟨⟨more, rest'⟩, hmore, h⟩ := Option.bind_eq_some_iff.1 h
      cases h
      intro j hj
      rcases List.mem_cons.1 hj with rfl | hj
      · exact hitem _ _ _ hx
      · exact ih hmore j hj
    · cases h

theorem proper_readMembers {most : ℕ} {cs rest : List Char} {members : List (String × Json)}
    (h : readMembers item most cs = some (members, rest)) : ∀ m ∈ members, m.2.Proper := by
  induction most generalizing cs members rest with
  | zero => cases h
  | succ most ih =>
    unfold readMembers at h
    split at h
    · obtain ⟨⟨k, cs'⟩, -, h⟩ := Option.bind_eq_some_iff.1 h
      dsimp only at h
      split at h
      · obtain ⟨⟨v, cs''⟩, hv, h⟩ := Option.bind_eq_some_iff.1 h
        dsimp only at h
        split at h
        · cases h
          intro m hm
          rw [List.mem_singleton.1 hm]
          exact hitem _ _ _ hv
        · obtain ⟨⟨more, rest'⟩, hmore, h⟩ := Option.bind_eq_some_iff.1 h
          cases h
          intro m hm
          rcases List.mem_cons.1 hm with rfl | hm
          · exact hitem _ _ _ hv
          · exact ih hmore m hm
        · cases h
      · cases h
    · cases h

end Reading

theorem proper_readValue {depth : ℕ} {cs rest : List Char} {j : Json} (h : readValue depth cs = some (j, rest)) :
    j.Proper := by
  induction depth using Nat.strong_induction_on generalizing cs rest j with
  | h depth ih =>
    unfold readValue at h
    split at h
    · cases h
      exact .null
    · cases h
      exact .bool true
    · cases h
      exact .bool false
    · obtain ⟨⟨s, rest'⟩, -, h⟩ := Option.bind_eq_some_iff.1 h
      cases h
      exact .text s
    · split at h
      · cases h
      · rename_i inner
        split at h
        · cases h
          exact .list (by simp)
        · obtain ⟨⟨items, rest'⟩, hitems, h⟩ := Option.bind_eq_some_iff.1 h
          cases h
          exact .list (proper_readItems (fun _ _ _ => ih inner (Nat.lt_succ_self _)) hitems)
    · split at h
      · cases h
      · rename_i inner
        split at h
        · cases h
          exact .object List.Pairwise.nil (by simp)
        · obtain ⟨⟨members, rest'⟩, hmembers, h⟩ := Option.bind_eq_some_iff.1 h
          cases h
          exact proper_ofMembers (proper_readMembers (fun _ _ _ => ih inner (Nat.lt_succ_self _)) hmembers)
    · obtain ⟨⟨n, rest'⟩, -, h⟩ := Option.bind_eq_some_iff.1 h
      obtain ⟨j', hj', h⟩ := Option.bind_eq_some_iff.1 h
      cases h
      exact proper_ofNumeral hj'

/-- Whatever is read is proper. -/
theorem proper_parse {s : String} {j : Json} (h : parse? s = some j) : j.Proper := by
  obtain ⟨⟨j', rest⟩, hj', h⟩ := Option.bind_eq_some_iff.1 h
  dsimp only at h
  split at h
  · cases h
    exact proper_readValue hj'
  · cases h

/-! ## The grammar without blanks -/

/-- The digits of a whole number: no number but zero itself starts with a zero. -/
def Whole (ds : List Char) : Prop := Decimal.Digits ds ∧ (ds.head? = some '0' → ds = ['0'])

/-- Nothing, or a point and digits. -/
inductive Fraction : List Char → Prop where
  | none : Fraction []
  | some {ds : List Char} : Decimal.Digits ds → Fraction ('.' :: ds)

/-- Nothing, or an exponent mark and digits, perhaps with a sign. -/
inductive Power : List Char → Prop where
  | none : Power []
  | some {mark : Char} {sign ds : List Char} : mark ∈ ['e', 'E'] → sign ∈ [[], ['+'], ['-']] → Decimal.Digits ds →
      Power (mark :: sign ++ ds)

/-- A number without its sign. -/
inductive Magnitude : List Char → Prop where
  | magnitude {whole fraction power : List Char} : Whole whole → Fraction fraction → Power power →
      Magnitude (whole ++ fraction ++ power)

/-- A number, perhaps with a minus sign. -/
inductive Written : List Char → Prop where
  | unsigned {cs : List Char} : Magnitude cs → Written cs
  | negative {cs : List Char} : Magnitude cs → Written ('-' :: cs)

/-- An integer is written with digits alone. -/
inductive WrittenInteger : ℤ → List Char → Prop where
  | unsigned {ds : List Char} : Whole ds → WrittenInteger (Nat.ofDigitChars 10 ds 0) ds
  | negative {ds : List Char} : Whole ds → WrittenInteger (-Nat.ofDigitChars 10 ds 0) ('-' :: ds)

/-- Characters between quotes. Only a quote, a backslash and the control characters have to be escaped,
by a letter or by the digits of their unit. -/
inductive Spelt : List Char → List Char → Prop where
  | nil : Spelt [] []
  | plain {c : Char} {cs text : List Char} : c ≠ '"' → c ≠ '\\' → 0x20 ≤ c.toNat → Spelt cs text →
      Spelt (c :: cs) (c :: text)
  | letter {c e : Char} {cs text : List Char} : escaped? e = some c → Spelt cs text → Spelt (c :: cs) ('\\' :: e :: text)
  | unit {c x₁ x₂ x₃ x₄ : Char} {cs text : List Char} : unit? x₁ x₂ x₃ x₄ = some c.toNat → Spelt cs text →
      Spelt (c :: cs) ('\\' :: 'u' :: x₁ :: x₂ :: x₃ :: x₄ :: text)

/-- A text between its quotes. -/
inductive Quoted (s : String) : List Char → Prop where
  | quoted {text : List Char} : Spelt s.toList text → Quoted s ('"' :: text ++ ['"'])

mutual

/-- The texts of a document without any blanks. Which real number a number is, is not said. -/
inductive Compact : Json → List Char → Prop where
  | null : Compact .null ['n', 'u', 'l', 'l']
  | true : Compact (.bool true) ['t', 'r', 'u', 'e']
  | false : Compact (.bool false) ['f', 'a', 'l', 's', 'e']
  | integer {i : ℤ} {cs : List Char} : WrittenInteger i cs → Compact (.integer i) cs
  | real {x : Binary64} {cs : List Char} : Written cs → Compact (.real x) cs
  | text {s : String} {cs : List Char} : Quoted s cs → Compact (.text s) cs
  | list {items : List Json} {cs : List Char} : CompactItems items cs → Compact (.list items) ('[' :: cs ++ [']'])
  | object {members : List (String × Json)} {cs : List Char} : CompactMembers members cs →
      Compact (.object members) ('\x7b' :: cs ++ ['\x7d'])

/-- Items with a comma between each two. -/
inductive CompactItems : List Json → List Char → Prop where
  | nil : CompactItems [] []
  | last {j : Json} {cs : List Char} : Compact j cs → CompactItems [j] cs
  | next {j k : Json} {items : List Json} {cs more : List Char} : Compact j cs → CompactItems (k :: items) more →
      CompactItems (j :: k :: items) (cs ++ ',' :: more)

/-- Members with a comma between each two, and a colon between key and value. -/
inductive CompactMembers : List (String × Json) → List Char → Prop where
  | nil : CompactMembers [] []
  | last {k : String} {v : Json} {key cs : List Char} : Quoted k key → Compact v cs →
      CompactMembers [(k, v)] (key ++ ':' :: cs)
  | next {k : String} {v : Json} {m : String × Json} {members : List (String × Json)} {key cs more : List Char} :
      Quoted k key → Compact v cs → CompactMembers (m :: members) more →
      CompactMembers ((k, v) :: m :: members) (key ++ ':' :: cs ++ ',' :: more)

end

/-! ## Printed numbers -/

theorem head?_toDigits {n : ℕ} (h : 0 < n) : (Nat.toDigits 10 n).head? ≠ some '0' := by
  induction n using Nat.strong_induction_on with
  | h n ih =>
    by_cases hn : n < 10
    · rw [Nat.toDigits_of_lt_base hn, List.head?_singleton, ne_eq, Option.some_inj, Nat.digitChar_eq_zero]
      exact h.ne'
    · have hdiv := ih (n / 10) (by omega) (by omega)
      rw [Nat.toDigits_of_base_le (by norm_num) (by omega), List.head?_append_of_ne_nil _ Nat.toDigits_ne_nil]
      exact hdiv

theorem whole_toDigits (n : ℕ) : Whole (Nat.toDigits 10 n) := by
  refine ⟨Decimal.Plain.digits_toDigits n, fun hzero => ?_⟩
  rcases Nat.eq_zero_or_pos n with rfl | h
  · exact Nat.toDigits_zero 10
  · exact absurd hzero (head?_toDigits h)

theorem writtenInteger_integerChars (i : ℤ) : WrittenInteger i (integerChars i) := by
  have hnumber := Nat.ofDigitChars_ten_toDigits (n := i.natAbs)
  unfold integerChars
  split_ifs
  · have := WrittenInteger.negative (whole_toDigits i.natAbs)
    rwa [hnumber, show -(i.natAbs : ℤ) = i by omega] at this
  · have := WrittenInteger.unsigned (whole_toDigits i.natAbs)
    rwa [hnumber, show (i.natAbs : ℤ) = i by omega] at this

section Numbers

variable {ds : List Char}

theorem Whole.append_zeros (h : Whole ds) (hnonzero : ds.head? ≠ some '0') (n : ℕ) :
    Whole (ds ++ List.replicate n '0') := by
  obtain ⟨⟨hne, hdigits⟩, -⟩ := h
  refine ⟨⟨by simp [hne], fun c hc => ?_⟩, fun hhead => ?_⟩
  · rcases List.mem_append.1 hc with hc | hc
    · exact hdigits c hc
    · rw [List.eq_of_mem_replicate hc]
      decide
  · rw [List.head?_append_of_ne_nil _ hne] at hhead
    exact absurd hhead hnonzero

theorem Whole.take (h : Whole ds) (hnonzero : ds.head? ≠ some '0') {n : ℕ} (hn : 0 < n) : Whole (ds.take n) := by
  obtain ⟨⟨hne, hdigits⟩, -⟩ := h
  refine ⟨⟨?_, fun c hc => hdigits c (List.mem_of_mem_take hc)⟩, fun hhead => ?_⟩
  · rw [ne_eq, List.take_eq_nil_iff, not_or]
    exact ⟨hn.ne', hne⟩
  · rw [List.head?_take, if_neg hn.ne'] at hhead
    exact absurd hhead hnonzero

/-- The digits behind the first few are digits, if there are any. -/
theorem Whole.drop (h : Whole ds) {n : ℕ} (hn : n < ds.length) : Decimal.Digits (ds.drop n) := by
  refine ⟨?_, fun c hc => h.1.2 c (List.mem_of_mem_drop hc)⟩
  rw [ne_eq, List.drop_eq_nil_iff, not_le]
  exact hn

theorem digits_zeros_append (h : Decimal.Digits ds) (n : ℕ) : Decimal.Digits (List.replicate n '0' ++ ds) := by
  refine ⟨by simp [h.1], fun c hc => ?_⟩
  rcases List.mem_append.1 hc with hc | hc
  · rw [List.eq_of_mem_replicate hc]
    decide
  · exact h.2 c hc

theorem digits_zero : Decimal.Digits ['0'] := ⟨by simp, List.forall_mem_singleton.2 ⟨Char.le_refl _, by decide⟩⟩

theorem whole_zero : Whole ['0'] := ⟨digits_zero, fun _ => rfl⟩

theorem power_exponent (e : ℤ) : Power ('e' :: (if e < 0 then '-' else '+') :: Nat.toDigits 10 e.natAbs) := by
  have hdigits := Decimal.Plain.digits_toDigits e.natAbs
  split_ifs
  · show Power ('e' :: ['-'] ++ Nat.toDigits 10 e.natAbs)
    exact .some (by simp) (by simp) hdigits
  · show Power ('e' :: ['+'] ++ Nat.toDigits 10 e.natAbs)
    exact .some (by simp) (by simp) hdigits

theorem fraction_rest (h : Whole ds) : Fraction (if ds.length = 1 then [] else '.' :: ds.drop 1) := by
  have hlength := List.length_pos_iff.2 h.1.1
  split_ifs
  · exact .none
  · exact .some (h.drop (by omega))

/-- A decimal other than zero is a number, wherever its point stands. -/
theorem magnitude_decimalText {c : ℕ} (hc : 0 < c) (p : ℤ) : Magnitude (decimalText c p) := by
  have hwhole := whole_toDigits c
  have hnonzero := head?_toDigits hc
  have unscaled {cs fraction : List Char} (h : Whole cs) (hfraction : Fraction fraction) : Magnitude (cs ++ fraction) :=
    List.append_nil (cs ++ fraction) ▸ .magnitude h hfraction .none
  unfold decimalText
  dsimp only
  generalize Nat.toDigits 10 c = ds at hwhole hnonzero ⊢
  generalize p + ds.length - 1 = e
  split
  · exact .magnitude (hwhole.take hnonzero one_pos) (fraction_rest hwhole) (power_exponent e)
  · split
    · show Magnitude (['0'] ++ '.' :: (List.replicate (-e - 1).toNat '0' ++ ds))
      exact unscaled whole_zero (.some (digits_zeros_append hwhole.1 _))
    · split
      · exact unscaled (hwhole.append_zeros hnonzero _) (.some digits_zero)
      · exact unscaled (hwhole.take hnonzero (Nat.succ_pos _)) (.some (hwhole.drop (not_le.1 ‹_›)))

theorem written_realText {x : Binary64} (h : x.Finite) : Written (realText x) := by
  have hmagnitude : Magnitude (if x.isZero then ['0', '.', '0'] else decimalText x.shortest.1 x.shortest.2) := by
    split_ifs with hzero
    · show Magnitude (['0'] ++ ['.', '0'] ++ [])
      exact .magnitude whole_zero (.some digits_zero) .none
    · exact magnitude_decimalText (Binary64.shortest_pos (by simpa [Binary64.isZero] using hzero) h) _
  unfold realText
  dsimp only
  split
  · exact .negative hmagnitude
  · exact .unsigned hmagnitude

end Numbers

/-! ## Printed texts -/

theorem unit?_control {n : ℕ} (h : n < 0x20) :
    unit? '0' '0' (Nat.digitChar (n / 16)) (Nat.digitChar (n % 16)) = some n := by
  revert n
  decide

theorem spelt_escape (c : Char) {cs text : List Char} (h : Spelt cs text) : Spelt (c :: cs) (escape c ++ text) := by
  unfold escape
  split_ifs with h₁ h₂ h₃ h₄ h₅ h₆ h₇ hcontrol
  iterate 7 exact .letter (by subst c; rfl) h
  · exact .unit (unit?_control hcontrol) h
  · exact .plain h₁ h₂ (not_lt.1 hcontrol) h

theorem quoted_quoted (s : String) : Quoted s (quoted s) := by
  have hspelt (cs : List Char) : Spelt cs (cs.flatMap escape) := by
    induction cs with
    | nil => exact .nil
    | cons c cs ih =>
      rw [List.flatMap_cons]
      exact spelt_escape c ih
  exact .quoted (hspelt s.toList)

/-! ## Printed documents -/

theorem compactItems_printItems {items : List Json} (h : ∀ j ∈ items, Compact j (print j)) :
    CompactItems items (printItems items) := by
  induction items with
  | nil => exact .nil
  | cons j items ih =>
    have hj := h j List.mem_cons_self
    replace ih := ih (List.forall_mem_of_forall_mem_cons h)
    cases items with
    | nil => exact .last hj
    | cons k items => exact .next hj ih

theorem compactMembers_printMembers {members : List (String × Json)} (h : ∀ m ∈ members, Compact m.2 (print m.2)) :
    CompactMembers members (printMembers members) := by
  induction members with
  | nil => exact .nil
  | cons first members ih =>
    obtain ⟨k, v⟩ := first
    have hv := h (k, v) List.mem_cons_self
    replace ih := ih (List.forall_mem_of_forall_mem_cons h)
    cases members with
    | nil => exact .last (quoted_quoted k) hv
    | cons m members => exact .next (quoted_quoted k) hv ih

/-- What is printed of a proper document is a compact text of it. -/
theorem Proper.compact_print {j : Json} (h : j.Proper) : Compact j (print j) := by
  induction h with
  | null => exact .null
  | bool b =>
    cases b with
    | true => exact .true
    | false => exact .false
  | integer i => exact .integer (writtenInteger_integerChars i)
  | real hx => exact .real (written_realText hx)
  | text s => exact .text (quoted_quoted s)
  | list _ ih => exact .list (compactItems_printItems ih)
  | object _ _ ih => exact .object (compactMembers_printMembers ih)

/-- A text that says a document, other than nothing, without any blanks, and the keys of every object in it
in their order. -/
def Canonical (text : String) : Prop := ∃ j : Json, j ≠ .null ∧ j.Proper ∧ Compact j text.toList

theorem Proper.canonical {j : Json} (h : j.Proper) (hnull : j ≠ .null) : Canonical j.canonical := by
  refine ⟨j, hnull, h, ?_⟩
  rw [Json.canonical, String.toList_ofList]
  exact h.compact_print

end TradeLedger.Json

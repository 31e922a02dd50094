/-
Verification decides whether every row of a table is good, and blames the first that is not.

What is good is said of a row and the rows in front of it, as they are stored and whatever they are,
without the end of a chain that the checking carries along. The two meet in an invariant of the
loop: as long as nothing was blamed, the rows in front are linked up to the end that is carried, and
the digest and the time of that end are those of the last row in front.
-/
import TradeLedger.Proofs.Chain.Binding

namespace TradeLedger.Chain

/-! ## A row and the rows in front of it -/

section Row

variable (t : Table) (front : List Row) (r : Row) (e : Envelope)

/-- The columns of the row say that it stands where it does. -/
def InPlace : Prop := r.table = t ∧ r.position.toNat = front.length + 1

/-- The digest of the row covers the digest stored in front of it and the content of the row. -/
def Hashed : Prop := link (ending (genesis t) front) r.content = r.digest

/-- The content of the row says that it stands where it does. -/
def Names : Prop := e.table = t ∧ e.position.toNat = front.length + 1

/-- The identifiers in the content of the row are those beside it. -/
def Matches : Prop := e.recordId = r.recordId ∧ e.linkId = r.linkId

/-- The row was not created before the one in front of it, as far as that one reads. -/
def InTime : Prop :=
  ∀ last before, front.getLast? = some last → Envelope.decode last.content = .ok before → before.createdAt ≤ e.createdAt

/-- A row that may stand behind the rows in front of it. -/
structure Good : Prop where
  place : InPlace t front r
  digest : Hashed t front r
  content : ∃ e, Envelope.decode r.content = .ok e ∧ Names t front e ∧ Matches r e ∧ InTime front e

/-- The first thing that is wrong with a row, in the order in which a row is looked at. -/
inductive Faulty : Flaw → Prop where
  | place : ¬ InPlace t front r → Faulty .position
  | digest : InPlace t front r → ¬ Hashed t front r → Faulty .digest
  | content {d : Damage} : InPlace t front r → Hashed t front r → Envelope.decode r.content = .error d → Faulty .content
  | named {e : Envelope} : InPlace t front r → Hashed t front r → Envelope.decode r.content = .ok e →
      ¬ Names t front e → Faulty .position
  | columns {e : Envelope} : InPlace t front r → Hashed t front r → Envelope.decode r.content = .ok e →
      Names t front e → ¬ Matches r e → Faulty .columns
  | time {e : Envelope} : InPlace t front r → Hashed t front r → Envelope.decode r.content = .ok e →
      Names t front e → Matches r e → ¬ InTime front e → Faulty .time

end Row

/-- Every row of a table is good behind those in front of it. -/
def AllGood (t : Table) (rows : List Row) : Prop := ∀ i r, rows[i]? = some r → Good t (rows.take i) r

section Faults

variable {t : Table} {front : List Row} {r : Row}

/-- A row with a fault is not good. -/
theorem Faulty.not_good {flaw : Flaw} (h : Faulty t front r flaw) : ¬ Good t front r := by
  intro hg
  obtain ⟨e, he, hn, hm, ht⟩ := hg.content
  cases h with
  | place h => exact h hg.place
  | digest _ h => exact h hg.digest
  | content _ _ h => rw [he] at h; cases h
  | named _ _ h h' => rw [he] at h; cases h; exact h' hn
  | columns _ _ h _ h' => rw [he] at h; cases h; exact h' hm
  | time _ _ h _ _ h' => rw [he] at h; cases h; exact h' ht

/-- Of a row, one thing is wrong first. -/
theorem Faulty.unique {f g : Flaw} (h : Faulty t front r f) (h' : Faulty t front r g) : f = g := by
  cases h <;> cases h' <;> first | rfl | contradiction | simp_all

/-- Put at the end of good rows, a good row leaves all of them good. -/
theorem AllGood.snoc (h : AllGood t front) (hr : Good t front r) : AllGood t (front ++ [r]) := by
  intro i x hx
  rcases lt_trichotomy i front.length with hlt | rfl | hgt
  · rw [List.getElem?_append_left hlt] at hx
    rw [List.take_append_of_le_length hlt.le]
    exact h i x hx
  · rw [List.getElem?_concat_length] at hx
    cases hx
    rw [List.take_left' rfl]
    exact hr
  · rw [List.getElem?_eq_none (by rw [List.length_append, List.length_singleton]; omega)] at hx
    cases hx

theorem AllGood.of_split {later : List Row} (h : AllGood t (front ++ r :: later)) : Good t front r := by
  have := h front.length r (by rw [List.getElem?_append_right le_rfl]; simp)
  rwa [List.take_left' rfl] at this

end Faults

/-! ## What the end carried along says about the rows in front -/

theorem ending_eq (before : Digest) (rows : List Row) :
    ending before rows = (rows.getLast?.map Row.digest).getD before := by
  induction rows using List.reverseRecOn with
  | nil => rfl
  | append_singleton rows r _ => rw [ending_append_singleton, List.getLast?_concat]; rfl

section Loop

variable {t : Table} {front : List Row} {before : Tail} {r : Row} {e : Envelope}

theorem Linked.inTime_iff (h : Linked t front before) : InTime front e ↔ before.createdAt ≤ e.createdAt := by
  obtain ⟨rfl, rfl⟩ | ⟨last, first, hl, hd, -, -, -, rfl⟩ := h.tail_eq
  · refine ⟨fun _ => Int64.minValue_le _, fun _ last before hl => ?_⟩
    cases hl
  · constructor
    · intro ht
      exact ht last first hl hd
    · intro ht last' first' hl' hd'
      rw [hl] at hl'
      cases hl'
      rw [hd] at hd'
      cases hd'
      exact ht

/-- Behind linked rows, the good rows are those that follow. -/
theorem Linked.good_iff (h : Linked t front before) : Good t front r ↔ ∃ e, Follows t before r e := by
  constructor
  · rintro ⟨hp, hd, e, he, hn, hm, ht⟩
    refine ⟨e, hp.1, ?_, ?_, he, hn.1, ?_, hm.1, hm.2, h.inTime_iff.1 ht⟩
    · rw [h.position_eq, hp.2]
    · rw [h.digest_eq]; exact hd
    · rw [h.position_eq, hn.2]
  · rintro ⟨e, hf⟩
    refine ⟨⟨hf.table, ?_⟩, ?_, e, hf.content, ⟨hf.contentTable, ?_⟩, ⟨hf.recordId, hf.linkId⟩, h.inTime_iff.2 hf.time⟩
    · rw [hf.position, h.position_eq]
    · rw [Hashed, ← h.digest_eq]; exact hf.digest
    · rw [hf.contentPosition, h.position_eq]

/-- Behind linked rows, what a row is rejected for is the first thing that is wrong with it. -/
theorem Linked.faulty_of_follow {flaw : Flaw} (h : Linked t front before) (hf : follow t before r = .error flaw) :
    Faulty t front r flaw := by
  unfold follow at hf
  simp only [bind, Except.bind, pure, Except.pure, throw, throwThe, MonadExceptOf.throw] at hf
  rw [h.position_eq, h.digest_eq] at hf
  split_ifs at hf with h1 h2
  · cases hf
    exact .place fun hp => h1.elim (· hp.1) (· hp.2)
  · cases hf
    push Not at h1
    exact .digest h1 h2
  · push Not at h1 h2
    cases hc : Envelope.decode r.content with
    | error d =>
      rw [hc] at hf
      cases hf
      exact .content h1 h2 hc
    | ok e =>
      rw [hc] at hf
      simp only at hf
      split_ifs at hf with h3 h4 h5
      · cases hf
        exact .named h1 h2 hc fun hn => h3.elim (· hn.1) (· hn.2)
      · cases hf
        push Not at h3
        exact .columns h1 h2 hc h3 fun hm => h4.elim (· hm.1) (· hm.2)
      · cases hf
        push Not at h3 h4
        refine .time h1 h2 hc h3 h4 fun ht => ?_
        have := h.inTime_iff.1 ht
        rw [Int64.lt_iff_toInt_lt] at h5
        rw [Int64.le_iff_toInt_le] at this
        omega

theorem Linked.allGood {rows : List Row} {tail : Tail} (h : Linked t rows tail) : AllGood t rows := by
  induction h with
  | nil => intro i r hr; simp at hr
  | snoc h hr ih => exact ih.snoc (h.good_iff.2 ⟨_, hr⟩)

end Loop

/-! ## The loop -/

/-- The break `b` is that of the row `r`, the first behind good rows that is not good itself. -/
structure FirstBreak (t : Table) (front : List Row) (r : Row) (b : Break) : Prop where
  good : AllGood t front
  not_good : ¬ Good t front r
  faulty_iff : ∀ flaw, Faulty t front r flaw ↔ flaw = b.flaw
  table : b.table = t
  position : b.position = front.length + 1
  recordId : b.recordId = r.recordId
  expected : b.expected = link (ending (genesis t) front) r.content
  actual : b.actual = r.digest

theorem firstBreak_of_follow {t : Table} {front : List Row} {before : Tail} {r : Row} {flaw : Flaw}
    (h : Linked t front before) (hf : follow t before r = .error flaw) :
    FirstBreak t front r ⟨t, before.position + 1, r.recordId, link before.digest r.content, r.digest, flaw⟩ where
  good := h.allGood
  not_good := (h.faulty_of_follow hf).not_good
  faulty_iff _ := ⟨fun h' => h'.unique (h.faulty_of_follow hf), fun h' => h' ▸ h.faulty_of_follow hf⟩
  table := rfl
  position := by rw [h.position_eq]
  recordId := rfl
  expected := by rw [h.digest_eq]
  actual := rfl

/-- Behind linked rows, either all further rows are linked on, or one of them is the first that is
not good and is blamed, whatever follows it. -/
theorem Linked.verifyFrom_cases {t : Table} {front : List Row} {before : Tail} (h : Linked t front before)
    (rest : List Row) :
    (∃ tail, Linked t (front ++ rest) tail ∧ verifyFrom t before rest = .intact t tail) ∨
      ∃ good r later b, rest = good ++ r :: later ∧ FirstBreak t (front ++ good) r b ∧
        ∀ other, verifyFrom t before (good ++ r :: other) = .broken b := by
  induction rest generalizing front before with
  | nil => exact .inl ⟨before, by rwa [List.append_nil], rfl⟩
  | cons r rest ih =>
    cases hf : follow t before r with
    | error flaw =>
      have hb := firstBreak_of_follow h hf
      refine .inr ⟨[], r, rest, _, rfl, by rwa [List.append_nil], fun other => ?_⟩
      simp only [List.nil_append, verifyFrom, hf]
    | ok after =>
      obtain ⟨e, he, rfl⟩ := follows_of_follow hf
      have hcons : front ++ r :: rest = front ++ [r] ++ rest := by rw [List.append_assoc, List.singleton_append]
      rcases ih (h.snoc he) with ⟨tail, hl, hv⟩ | ⟨good, x, later, b, rfl, hb, hv⟩
      · refine .inl ⟨tail, by rwa [hcons], ?_⟩
        simp only [verifyFrom, hf, hv]
      · refine .inr ⟨r :: good, x, later, b, rfl, ?_, fun other => ?_⟩
        · rwa [List.append_assoc, List.singleton_append] at hb
        · simp only [List.cons_append, verifyFrom, hf, hv]

/-! ## Verification -/

/-- What the rows of a table have to be for verification to say what it says. -/
structure Decided (t : Table) (rows : List Row) : Prop where
  /-- All is well exactly if every row is good. -/
  intact_iff : (verify t rows).isIntact = true ↔ AllGood t rows
  /-- Then the rows are counted, and the end is the last digest stored. -/
  intact : ∀ u tail, verify t rows = .intact u tail →
    u = t ∧ tail.position = rows.length ∧ tail.digest = (rows.getLast?.map Row.digest).getD (genesis t)
  /-- If not, the first row that is not good is blamed, and the rows behind it do not matter. -/
  broken : ¬ AllGood t rows → ∃ front r later b, rows = front ++ r :: later ∧ FirstBreak t front r b ∧
    ∀ other, verify t (front ++ r :: other) = .broken b

/-- Verification says of any rows whatever whether they are all good, and names the first that is not. -/
theorem verify_decides (t : Table) (rows : List Row) : Decided t rows := by
  rcases Linked.nil.verifyFrom_cases (t := t) rows with ⟨tail, hl, hv⟩ | ⟨front, r, later, b, rfl, hb, hv⟩
  · rw [List.nil_append] at hl
    refine ⟨⟨fun _ => hl.allGood, fun _ => by rw [verify, hv]; rfl⟩, fun u tail' h => ?_, fun h => absurd hl.allGood h⟩
    obtain ⟨rfl, hl'⟩ := verify_eq_intact_iff.1 h
    exact ⟨rfl, hl'.position_eq, by rw [hl'.digest_eq, ending_eq]⟩
  · rw [List.nil_append] at hb
    have hbroken : verify t (front ++ r :: later) = .broken b := hv later
    refine ⟨⟨fun h => ?_, fun h => absurd h.of_split hb.not_good⟩, fun u tail h => ?_, fun _ => ?_⟩
    · rw [hbroken] at h
      cases h
    · rw [hbroken] at h
      cases h
    · exact ⟨front, r, later, b, rfl, hb, hv⟩

end TradeLedger.Chain

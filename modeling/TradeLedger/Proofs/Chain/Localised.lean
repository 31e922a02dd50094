/-
A tampered table is blamed where it was tampered with. Rows that verified are held against rows that
agree with them up to a place and not there, whatever follows.

Nothing in front of that place is blamed. The row there is blamed unless it is good where it stands,
and it is not if it kept its digest: either its content is another one of that digest, or a column
beside the content gives it away. A row that was made new, digest and all, is good, and then the row
behind it still covers the digest that it replaced.
-/
import TradeLedger.Proofs.Chain.FirstBreak

namespace TradeLedger.Chain

/-- Verification finds its first break at this position. -/
def Blames (t : Table) (rows : List Row) (position : ℕ) : Prop :=
  ∃ b, verify t rows = .broken b ∧ b.position = position

section Behind

variable {t : Table} {front : List Row} {before : Tail} {r : Row}

/-! ## Behind linked rows -/

/-- Linked rows are passed over, and what follows is held against their end. -/
theorem Linked.verify_append (h : Linked t front before) (rest : List Row) :
    Chain.verify t (front ++ rest) = verifyFrom t before rest := by
  have hfront := h.verify
  unfold Chain.verify at hfront ⊢
  rw [verifyFrom_append, hfront]

/-- A break is behind the rows that are already done. -/
theorem lt_position_of_verifyFrom {rows : List Row} {b : Break} (h : verifyFrom t before rows = .broken b) :
    before.position < b.position := by
  induction rows generalizing before with
  | nil => cases h
  | cons r rows ih =>
    simp only [verifyFrom] at h
    cases hf : follow t before r with
    | ok after =>
      rw [hf] at h
      obtain ⟨e, -, rfl⟩ := follows_of_follow hf
      exact lt_trans (Nat.lt_succ_self _) (ih h)
    | error flaw =>
      rw [hf] at h
      cases h
      exact Nat.lt_succ_self _

/-- The first row that is not good is blamed for what is wrong with it, whatever follows. -/
theorem Linked.broken_of_not_good (h : Linked t front before) (hr : ¬ Good t front r) (rest : List Row) :
    ∃ b, Chain.verify t (front ++ r :: rest) = .broken b ∧ b.position = front.length + 1 ∧ Faulty t front r b.flaw := by
  rw [h.verify_append, verifyFrom]
  cases hf : follow t before r with
  | ok after =>
    obtain ⟨e, he, -⟩ := follows_of_follow hf
    exact absurd (h.good_iff.2 ⟨e, he⟩) hr
  | error flaw => exact ⟨_, rfl, by rw [h.position_eq], h.faulty_of_follow hf⟩

theorem Linked.blames_of_not_good (h : Linked t front before) (hr : ¬ Good t front r) (rest : List Row) :
    Blames t (front ++ r :: rest) (front.length + 1) := by
  obtain ⟨b, hb, hposition, -⟩ := h.broken_of_not_good hr rest
  exact ⟨b, hb, hposition⟩

/-- Each of linked rows follows the end of those in front of it. -/
theorem Linked.exists_follows {later : List Row} {tail : Tail} (h : Linked t (front ++ r :: later) tail) :
    ∃ before e, Linked t front before ∧ Follows t before r e := by
  obtain ⟨before, hbefore⟩ := h.of_prefix (List.prefix_append front (r :: later))
  obtain ⟨e, he⟩ := hbefore.good_iff.1 h.allGood.of_split
  exact ⟨before, e, hbefore, he⟩

/-- What a row behind linked rows is hashed with is among all that is hashed. -/
theorem Linked.link_mem_hashed (h : Linked t front before) (r : Row) (rest : List Row) :
    before.digest.bytes ++ r.content ∈ hashed t (front ++ r :: rest) := by
  have hprefix : front ++ [r] <+: front ++ r :: rest := ⟨rest, by simp⟩
  exact hashed_subset_of_prefix t hprefix (h.mem_hashed r)

end Behind

/-! ## Where rows start to differ -/

section Tampered

variable {t : Table} {front later : List Row} {r : Row} {tail : Tail} (h : Linked t (front ++ r :: later) tail)
variable {r' : Row} (hne : r' ≠ r) (later' : List Row)

include h hne

/-- A good row in place of another has another digest, but for a clash. -/
theorem Linked.digest_ne_or_clash (hgood : Good t front r') :
    r'.digest ≠ r.digest ∨ Clash (hashed t (front ++ r :: later)) (hashed t (front ++ r' :: later')) := by
  obtain ⟨before, e, hbefore, hr⟩ := h.exists_follows
  obtain ⟨e', hr'⟩ := hbefore.good_iff.1 hgood
  by_cases hd : r'.digest = r.digest
  · have hlink : link before.digest r.content = link before.digest r'.content := by
      rw [hr.digest, hr'.digest, hd]
    rcases Chain.eq_or_clash (hbefore.link_mem_hashed r later) (hbefore.link_mem_hashed r' later') hlink
      with heq | hclash
    · -- one content behind one digest: then every column is the same too
      have hcontent : r'.content = r.content := (List.append_cancel_left heq).symm
      exact absurd (hr'.row_eq hr hcontent hd).2 hne
    · exact .inr hclash
  · exact .inl hd

/-- Behind a good row in place of another, the row that followed that other is not good, but for a clash. -/
theorem Linked.next_not_good_or_clash {next : Row} {rest rest' : List Row} (hlater : later = next :: rest)
    (hlater' : later' = next :: rest') (hgood : Good t front r') :
    ¬ Good t (front ++ [r']) next ∨ Clash (hashed t (front ++ r :: later)) (hashed t (front ++ r' :: later')) := by
  subst hlater hlater'
  rcases h.digest_ne_or_clash hne (next :: rest') hgood with hd | hclash
  · by_cases hnext' : Good t (front ++ [r']) next
    · right
      obtain ⟨before, e, hbefore, hr⟩ := h.exists_follows
      obtain ⟨e', hr'⟩ := hbefore.good_iff.1 hgood
      have hupTo := hbefore.snoc hr
      have hupTo' := hbefore.snoc hr'
      -- the same row covers both digests
      have hnext : Good t (front ++ [r]) next := by
        refine @AllGood.of_split t (front ++ [r]) next rest ?_
        rw [List.append_assoc, List.singleton_append]
        exact h.allGood
      have hlink : link (before.after r e).digest next.content = link (before.after r' e').digest next.content := by
        have hhashed := hnext.digest
        have hhashed' := hnext'.digest
        rw [Hashed, ← hupTo.digest_eq] at hhashed
        rw [Hashed, ← hupTo'.digest_eq] at hhashed'
        rw [hhashed, hhashed']
      have hmem := hupTo.link_mem_hashed next rest
      have hmem' := hupTo'.link_mem_hashed next rest'
      rw [List.append_assoc, List.singleton_append] at hmem hmem'
      refine (Chain.eq_or_clash hmem hmem' hlink).resolve_left fun heq => hd ?_
      exact Digest.ext (List.append_cancel_right heq).symm
    · exact .inl hnext'
  · exact .inr hclash

end Tampered

/-- Where the rows of a table are blamed that start to differ from rows that verified at the row behind
those in front. -/
structure Localised (t : Table) (front : List Row) (r : Row) (later : List Row) (r' : Row) (later' : List Row) :
    Prop where
  /-- Nothing in front of the first difference is blamed. -/
  not_before : ∀ b, verify t (front ++ r' :: later') = .broken b → front.length + 1 ≤ b.position
  /-- A row that kept its digest is blamed, whatever else of it was changed and whatever follows. -/
  kept_digest : r'.digest = r.digest → Blames t (front ++ r' :: later') (front.length + 1) ∨
    Clash (hashed t (front ++ r :: later)) (hashed t (front ++ r' :: later'))
  /-- So is one whose digest does not cover its content and the digest in front of it. -/
  wrong_digest : link (ending (genesis t) front) r'.content ≠ r'.digest →
    Blames t (front ++ r' :: later') (front.length + 1)
  /-- If the row was made new and is good, the next one is blamed, provided that it was left. -/
  made_new : Good t front r' → ∀ next rest rest', later = next :: rest → later' = next :: rest' →
    Blames t (front ++ r' :: later') (front.length + 2) ∨
      Clash (hashed t (front ++ r :: later)) (hashed t (front ++ r' :: later'))
  /-- If the row was taken away, and was not the last, the one in its place is not where it belongs. -/
  taken_away : later ≠ [] →
    ∃ b, verify t (front ++ later) = .broken b ∧ b.position = front.length + 1 ∧ b.flaw = .position

/-- Whatever rows are shown in place of rows that verified: from where they start to differ on, and no
earlier, they are blamed, and exactly there or one row further as far as the digests decide it. -/
theorem tampering_localised {t u : Table} {front later : List Row} {r : Row} {tail : Tail}
    (h : verify t (front ++ r :: later) = .intact u tail) {r' : Row} (hne : r' ≠ r) (later' : List Row) :
    Localised t front r later r' later' := by
  have hlinked := linked_of_verify h
  obtain ⟨before, e, hbefore, -⟩ := hlinked.exists_follows
  refine ⟨fun b hb => ?_, fun hd => ?_, fun hwrong => ?_, fun hgood next rest rest' hlater hlater' => ?_,
    fun hlater => ?_⟩
  · rw [hbefore.verify_append] at hb
    have hlt := lt_position_of_verifyFrom hb
    rw [hbefore.position_eq] at hlt
    exact hlt
  · by_cases hgood : Good t front r'
    · exact .inr ((hlinked.digest_ne_or_clash hne later' hgood).resolve_left (not_not_intro hd))
    · exact .inl (hbefore.blames_of_not_good hgood later')
  · exact hbefore.blames_of_not_good (fun hgood => hwrong hgood.digest) later'
  · refine (hlinked.next_not_good_or_clash hne later' hlater hlater' hgood).imp_left fun hnext => ?_
    obtain ⟨e', hr'⟩ := hbefore.good_iff.1 hgood
    have hblames := (hbefore.snoc hr').blames_of_not_good hnext rest'
    rwa [List.append_assoc, List.singleton_append, ← hlater', List.length_append, List.length_singleton] at hblames
  · obtain ⟨next, rest, rfl⟩ := List.exists_cons_of_ne_nil hlater
    have hnext : (front ++ r :: next :: rest)[front.length + 1]? = some next := by
      rw [← List.singleton_append, ← List.append_assoc, List.getElem?_append_right (by simp)]
      simp
    have hplace : ¬ InPlace t front next := by
      intro hplace
      have hmoved := (hlinked.getElem?_eq hnext).1
      rw [hplace.2] at hmoved
      omega
    obtain ⟨b, hb, hposition, hfaulty⟩ := hbefore.broken_of_not_good (fun hgood => hplace hgood.place) rest
    exact ⟨b, hb, hposition, hfaulty.unique (.place hplace)⟩

/-- What is stamped at the start of 1970 for an event of one order. -/
def stamped (before : Tail) (id : ℕ) (kind : EventKind) : Stamp :=
  Engine.follow before 0 (Uuid.made 1 id) (.event ⟨Uuid.made 2 1, kind, none, none, none, none, none, none⟩)

/-- The order was filled, -/
def filled : Stamp := stamped (.empty .orderEvents) 1 .fill

/-- and positions were flattened after that. -/
def flattened : Stamp := stamped filled.tail 2 .emergencyStop

/-- The order was cancelled, as somebody else would have it. -/
def cancelled : Stamp := stamped (.empty .orderEvents) 1 .cancel

/-- The cancelled order passes, digest and all, and is found out by the row behind it. -/
theorem tampering_localised_cancelled :
    verify .orderEvents [filled.row, flattened.row] = .intact .orderEvents flattened.tail ∧
      cancelled.row ≠ filled.row ∧ Good .orderEvents [] cancelled.row ∧
      Blames .orderEvents [cancelled.row, flattened.row] 2 := by
  have hstorable (kind : EventKind) :
      (Body.event ⟨Uuid.made 2 1, kind, none, none, none, none, none, none⟩).Storable := by
    constructor <;> simp
  have hfilled : Linked .orderEvents [filled.row] filled.tail := by
    rw [filled, stamped, Engine.tail_follow 0 _ (by decide)]
    exact Linked.nil.snoc (Engine.follows_follow 0 _ (hstorable .fill) (by decide))
  have hboth : Linked .orderEvents [filled.row, flattened.row] flattened.tail := by
    rw [flattened, stamped, Engine.tail_follow 0 _ (by decide)]
    exact hfilled.snoc (Engine.follows_follow 0 _ (hstorable .emergencyStop) (by decide))
  have hgood : Good .orderEvents [] cancelled.row :=
    Linked.nil.good_iff.2 ⟨_, Engine.follows_follow 0 (Uuid.made 1 1) (hstorable .cancel) (by decide)⟩
  have hne : cancelled.row ≠ filled.row := by decide +kernel
  have hlocalised :=
    @tampering_localised .orderEvents .orderEvents [] [flattened.row] filled.row flattened.tail hboth.verify
      cancelled.row hne [flattened.row]
  have hclash : ¬ Clash (hashed .orderEvents [filled.row, flattened.row])
      (hashed .orderEvents [cancelled.row, flattened.row]) := by decide +kernel
  exact ⟨hboth.verify, hne, hgood, (hlocalised.made_new hgood flattened.row [] [] rfl rfl).resolve_right hclash⟩

end TradeLedger.Chain

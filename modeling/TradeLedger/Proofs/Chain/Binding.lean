/-
The digest at the end of a chain binds the whole table: two tables of rows that verify and end in
one digest are the same rows of the same table, unless two different strings of octets with one
digest stand among those that their verification hashes.

The rows are compared from their ends. Each link hashes 32 octets of the digest before and then a
content; the content names its table and position and pins every column, and the digest before is
again the end of a shorter chain. A chain that is used up on one side only would make the name of a
table, which is hashed at its start, equal to a digest and a content: what is left of the name
behind 32 octets is shorter than any content.
-/
import TradeLedger.Proofs.Engine

namespace TradeLedger.Chain

/-! ## What is hashed -/

/-- What the start of a table's chain is the digest of. -/
def origin (t : Table) : Bytes := Bytes.ofText (domain ++ t.name)

/-- What the links of rows behind a digest are the digests of. -/
def links (before : Digest) : List Row → List Bytes
  | [] => []
  | r :: rest => (before.bytes ++ r.content) :: links r.digest rest

/-- Everything that verifying the rows of a table hashes. -/
def hashed (t : Table) (rows : List Row) : List Bytes := origin t :: links (genesis t) rows

/-- Two different strings of octets, one of each list, have one digest. -/
def Clash (xs ys : List Bytes) : Prop := ∃ x ∈ xs, ∃ y ∈ ys, x ≠ y ∧ Sha256.hash x = Sha256.hash y

instance (xs ys : List Bytes) : Decidable (Clash xs ys) := inferInstanceAs (Decidable (∃ x ∈ xs, _))

theorem Clash.mono {xs ys xs' ys' : List Bytes} (h : Clash xs ys) (hx : xs ⊆ xs') (hy : ys ⊆ ys') : Clash xs' ys' := by
  obtain ⟨x, hxs, y, hys, hne, he⟩ := h
  exact ⟨x, hx hxs, y, hy hys, hne, he⟩

theorem Clash.symm {xs ys : List Bytes} (h : Clash xs ys) : Clash ys xs := by
  obtain ⟨x, hx, y, hy, hne, he⟩ := h
  exact ⟨y, hy, x, hx, hne.symm, he.symm⟩

/-- The digest that rows behind a digest end in. -/
def ending (before : Digest) : List Row → Digest
  | [] => before
  | r :: rest => ending r.digest rest

theorem ending_append_singleton (before : Digest) (rows : List Row) (r : Row) :
    ending before (rows ++ [r]) = r.digest := by
  induction rows generalizing before with
  | nil => rfl
  | cons x rest ih => exact ih x.digest

theorem links_append_singleton (before : Digest) (rows : List Row) (r : Row) :
    links before (rows ++ [r]) = links before rows ++ [(ending before rows).bytes ++ r.content] := by
  induction rows generalizing before with
  | nil => rfl
  | cons x rest ih => simp only [List.cons_append, links, ending, ih]

theorem Linked.digest_eq {t : Table} {rows : List Row} {tail : Tail} (h : Linked t rows tail) :
    tail.digest = ending (genesis t) rows := by
  cases h with
  | nil => rfl
  | snoc _ _ => rw [ending_append_singleton, Tail.after]

/-- Every linked row has the position of its place, and is hashed onto the rows before it. -/
theorem Linked.getElem?_eq {t : Table} {rows : List Row} {tail : Tail} (h : Linked t rows tail) {i : Nat} {r : Row}
    (hr : rows[i]? = some r) :
    r.position.toNat = i + 1 ∧ r.digest = link (ending (genesis t) (rows.take i)) r.content := by
  induction h with
  | nil => simp at hr
  | snoc h hf ih =>
    rename_i rows before last e
    rcases lt_trichotomy i rows.length with hlt | rfl | hgt
    · rw [List.getElem?_append_left hlt] at hr
      rw [List.take_append_of_le_length hlt.le]
      exact ih hr
    · rw [List.getElem?_concat_length] at hr
      cases hr
      rw [List.take_left', ← h.digest_eq, hf.position, h.position_eq]
      · exact ⟨rfl, hf.digest.symm⟩
      · rfl
    · rw [List.getElem?_eq_none (by rw [List.length_append, List.length_singleton]; omega)] at hr
      cases hr

/-- The last link of linked rows is among what is hashed. -/
theorem Linked.mem_hashed {t : Table} {rows : List Row} {before : Tail} (h : Linked t rows before) (r : Row) :
    before.digest.bytes ++ r.content ∈ hashed t (rows ++ [r]) := by
  rw [hashed, links_append_singleton, h.digest_eq]
  simp

theorem hashed_subset (t : Table) (rows : List Row) (r : Row) : hashed t rows ⊆ hashed t (rows ++ [r]) := by
  rw [hashed, hashed, links_append_singleton, ← List.cons_append]
  exact List.subset_append_left _ _

/-! ## The start of a chain -/

theorem origin_injective {t u : Table} (h : origin t = origin u) : t = u := by
  cases t <;> cases u <;> first | rfl | exact absurd h (by decide)

theorem length_origin_le (t : Table) : (origin t).length ≤ 40 := by
  cases t <;> decide

/-- No link of a chain hashes what the start of a chain hashes. -/
theorem origin_ne_link (t : Table) (before : Digest) {content : Bytes} {e : Envelope}
    (h : Envelope.decode content = .ok e) : origin t ≠ before.bytes ++ content := by
  intro heq
  -- behind 32 octets of the name of a table there are too few for a table and a position
  have hlen := congrArg List.length heq
  have ho := length_origin_le t
  have hc := Envelope.twelve_le_length h
  rw [List.length_append, before.length_bytes] at hlen
  omega

/-! ## Comparing the ends -/

/-- Of two hashed strings with one digest, either they are one or they clash. -/
theorem eq_or_clash {xs ys : List Bytes} {x y : Bytes} (hx : x ∈ xs) (hy : y ∈ ys)
    (h : Sha256.hash x = Sha256.hash y) : x = y ∨ Clash xs ys := by
  by_cases he : x = y
  · exact .inl he
  · exact .inr ⟨x, hx, y, hy, he, h⟩

/-- A content is linked to one digest only, but for a clash. -/
theorem eq_or_clash_of_link {d d' : Digest} {content : Bytes} (h : link d content = link d' content) :
    d = d' ∨ Clash [d.bytes ++ content] [d'.bytes ++ content] :=
  (eq_or_clash (List.mem_singleton_self _) (List.mem_singleton_self _) h).imp_left fun he =>
    Digest.ext (List.append_cancel_right he)

/-- A row that follows an end is pinned, down to every column, by its content and digest. -/
theorem Follows.row_eq {t u : Table} {before before' : Tail} {r r' : Row} {e e' : Envelope}
    (h : Follows t before r e) (h' : Follows u before' r' e') (hc : r.content = r'.content)
    (hd : r.digest = r'.digest) : t = u ∧ r = r' := by
  have he : e = e' := by
    have := h.content
    rw [hc, h'.content] at this
    cases this; rfl
  subst he
  have ht : t = u := h.contentTable.symm.trans h'.contentTable
  refine ⟨ht, Row.ext (h.table.trans (ht.trans h'.table.symm)) ?_ (h.recordId.symm.trans h'.recordId)
    (h.linkId.symm.trans h'.linkId) hc hd⟩
  apply UInt64.toNat_inj.1
  rw [h.position, h'.position, ← h.contentPosition, ← h'.contentPosition]

/-- A chain without rows and a chain with rows do not end in one digest, but for a clash. -/
theorem clash_of_nil {t u : Table} {rows : List Row} {before : Tail} {r : Row} {e : Envelope}
    (h : Linked u rows before) (hr : Follows u before r e) (hd : genesis t = r.digest) :
    Clash (hashed t []) (hashed u (rows ++ [r])) := by
  rw [← hr.digest] at hd
  rcases eq_or_clash (List.mem_cons_self : origin t ∈ hashed t []) (h.mem_hashed r) hd with heq | hclash
  · exact absurd heq (origin_ne_link t before.digest hr.content)
  · exact hclash

theorem Linked.eq_or_clash {t u : Table} {rows rows' : List Row} {tail tail' : Tail} (h : Linked t rows tail)
    (h' : Linked u rows' tail') (hd : tail.digest = tail'.digest) :
    (t = u ∧ rows = rows') ∨ Clash (hashed t rows) (hashed u rows') := by
  induction h generalizing rows' tail' with
  | nil =>
    cases h' with
    | nil =>
      rcases Chain.eq_or_clash (List.mem_cons_self : origin t ∈ hashed t [])
        (List.mem_cons_self : origin u ∈ hashed u []) hd with heq | hclash
      · exact .inl ⟨origin_injective heq, rfl⟩
      · exact .inr hclash
    | snoc h' hr' => exact .inr (clash_of_nil h' hr' hd)
  | snoc h hr ih =>
    rename_i rows before r e
    cases h' with
    | nil => exact .inr (clash_of_nil h hr hd.symm).symm
    | snoc h' hr' =>
      rename_i rows' before' r' e'
      replace hd : r.digest = r'.digest := hd
      have hl : link before.digest r.content = link before'.digest r'.content := by
        rw [hr.digest, hr'.digest, hd]
      rcases Chain.eq_or_clash (h.mem_hashed r) (h'.mem_hashed r') hl with heq | hclash
      · -- both hash 32 octets of a digest first, and that digest ends the chain before
        obtain ⟨hb, hc⟩ := List.append_inj heq (by rw [before.digest.length_bytes, before'.digest.length_bytes])
        obtain ⟨rfl, rfl⟩ := hr.row_eq hr' hc hd
        rcases ih h' (Digest.ext hb) with ⟨-, rfl⟩ | hclash
        · exact .inl ⟨rfl, rfl⟩
        · exact .inr (hclash.mono (hashed_subset _ _ _) (hashed_subset _ _ _))
      · exact .inr hclash

/-! ## Digests that two chains share -/

theorem hashed_subset_of_prefix (t : Table) {front rows : List Row} (h : front <+: rows) :
    hashed t front ⊆ hashed t rows := by
  obtain ⟨later, rfl⟩ := h
  induction later using List.reverseRecOn with
  | nil => rw [List.append_nil]; exact List.Subset.refl _
  | append_singleton later r ih =>
    rw [← List.append_assoc]
    exact List.Subset.trans ih (hashed_subset t _ r)

namespace Linked

variable {t : Table} {rows rows' : List Row} {tail tail' : Tail}

theorem of_prefix {front : List Row} (h : Linked t rows tail) (hfront : front <+: rows) : ∃ before, Linked t front before := by
  induction h with
  | nil =>
    rw [List.prefix_nil.1 hfront]
    exact ⟨_, .nil⟩
  | snoc h hr ih =>
    rcases List.prefix_concat_iff.1 hfront with heq | hfront
    · rw [heq]
      exact ⟨_, h.snoc hr⟩
    · exact ih hfront

/-- The rows up to one of them are linked, and end in its digest. -/
theorem exists_upTo (h : Linked t rows tail) {i : ℕ} {r : Row} (hr : rows[i]? = some r) :
    ∃ upTo, Linked t (rows.take (i + 1)) upTo ∧ upTo.digest = r.digest := by
  obtain ⟨upTo, hupTo⟩ := h.of_prefix (List.take_prefix (i + 1) rows)
  refine ⟨upTo, hupTo, ?_⟩
  rw [hupTo.digest_eq, List.take_add_one, hr]
  exact ending_append_singleton ..

/-- Where two chains of a table have a row of one digest, they are the same up to there, but for a clash. -/
theorem same_upTo_or_clash (h : Linked t rows tail) (h' : Linked t rows' tail') {i j : ℕ} {r r' : Row}
    (hr : rows[i]? = some r) (hr' : rows'[j]? = some r') (hd : r.digest = r'.digest) :
    (i = j ∧ rows.take (i + 1) = rows'.take (j + 1)) ∨ Clash (hashed t rows) (hashed t rows') := by
  obtain ⟨upTo, hupTo, hdigest⟩ := h.exists_upTo hr
  obtain ⟨upTo', hupTo', hdigest'⟩ := h'.exists_upTo hr'
  rcases hupTo.eq_or_clash hupTo' (by rw [hdigest, hdigest', hd]) with ⟨-, heq⟩ | hclash
  · have hlen := congrArg List.length heq
    have hi := (List.getElem?_eq_some_iff.1 hr).1
    have hj := (List.getElem?_eq_some_iff.1 hr').1
    rw [List.length_take, List.length_take] at hlen
    exact .inl ⟨by omega, heq⟩
  · have hsub := hashed_subset_of_prefix t (List.take_prefix (i + 1) rows)
    have hsub' := hashed_subset_of_prefix t (List.take_prefix (j + 1) rows')
    exact .inr (hclash.mono hsub hsub')

end Linked

/-! ## Verified tables -/

/-- Two tables of rows, of any lengths and contents, that verify and end in one digest are the same
rows of the same table, or two different strings of octets with one digest are found among those that
verifying them hashes. -/
theorem verified_rows_bound_by_tail {t u v w : Table} {rows rows' : List Row} {tail tail' : Tail}
    (h : verify t rows = .intact v tail) (h' : verify u rows' = .intact w tail')
    (hd : tail.digest = tail'.digest) :
    (t = u ∧ rows = rows') ∨ Clash (hashed t rows) (hashed u rows') :=
  (linked_of_verify h).eq_or_clash (linked_of_verify h') hd

/-- An event of an order, of which nothing but its kind is known. -/
def bareEvent (kind : EventKind) : Body := .event ⟨Uuid.made 2 1, kind, none, none, none, none, none, none⟩

theorem storable_bareEvent (kind : EventKind) : (bareEvent kind).Storable := by
  constructor <;> simp

/-- The order is filled in part, at the start of 1970, -/
def filledInPart : Stamp := Engine.follow (.empty .orderEvents) 0 (Uuid.made 1 1) (bareEvent .partialFill)

/-- and given up a little later. -/
def givenUp : Stamp := Engine.follow filledInPart.tail 5 (Uuid.made 1 2) (bareEvent .cancel)

def twoEvents : List Row := [filledInPart.row, givenUp.row]

theorem linked_twoEvents : Linked .orderEvents twoEvents givenUp.tail := by
  have hfirst : Linked .orderEvents [filledInPart.row] filledInPart.tail :=
    Linked.nil.snoc (Engine.follows_follow 0 _ (storable_bareEvent .partialFill) (by decide))
  exact hfirst.snoc (Engine.follows_follow 5 _ (storable_bareEvent .cancel) (by decide))

theorem twoEvents_bound_by_tail :
    verify .orderEvents twoEvents = .intact .orderEvents givenUp.tail ∧
      ((Table.orderEvents = .orderEvents ∧ twoEvents = twoEvents) ∨
        Clash (hashed .orderEvents twoEvents) (hashed .orderEvents twoEvents)) := by
  have h := linked_twoEvents.verify
  exact ⟨h, verified_rows_bound_by_tail h h rfl⟩

end TradeLedger.Chain

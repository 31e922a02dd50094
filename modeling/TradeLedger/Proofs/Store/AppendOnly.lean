/-
A store in memory is append-only whoever calls it. Rows of any table may be offered with any content,
any position and any permit. Those that are taken stand one behind the other, each at the place and in
the table that it names, and no row that was taken is ever changed or lost; every read says what the
rows are, and every offer that is refused leaves the store as it was.

What carries it is `InOrder`, a fact about the rows of one table alone: the row behind `n` others names
position `n + 1`. A position has 64 bits, so a table stops growing before its positions would repeat.
-/
import TradeLedger.Proofs.Store.Links

namespace TradeLedger.Memory

/-! ## Offers -/

/-- A row that somebody asks a store to take, under a permit for some table. -/
structure Offer where
  permit : Table
  row : Row

/-- The store once a row was offered to it. -/
def offer (m : Memory) (o : Offer) : Memory := (Store.append o.permit o.row m).2

/-- Offer after offer. -/
def offered (m : Memory) (offers : List Offer) : Memory := offers.foldl offer m

/-! ## One table -/

/-- These rows are of the table, and each names its place, counted from one. -/
def InOrder (t : Table) (rows : List Row) : Prop :=
  ∀ (i : ℕ) r, rows[i]? = some r → r.table = t ∧ r.position.toNat = i + 1

namespace InOrder

variable {t : Table} {rows : List Row} {r : Row}

theorem snoc (h : InOrder t rows) (ht : r.table = t) (hposition : r.position.toNat = rows.length + 1) :
    InOrder t (rows ++ [r]) := by
  intro i r' hr'
  rw [List.getElem?_append] at hr'
  split at hr'
  · exact h i r' hr'
  · rename_i hi
    rw [List.getElem?_singleton] at hr'
    split at hr'
    · cases hr'
      exact ⟨ht, by omega⟩
    · cases hr'

/-- Rows in order are in the order of their positions, any selection of them too. -/
theorem increasing (h : InOrder t rows) (p : Row → Bool) :
    ((rows.filter p).map Row.position).Pairwise (· < ·) := by
  have hrows : rows.Pairwise fun a b => a.position < b.position := by
    rw [List.pairwise_iff_getElem]
    intro i j hi hj hij
    have hi' := (h i rows[i] (List.getElem?_eq_getElem hi)).2
    have hj' := (h j rows[j] (List.getElem?_eq_getElem hj)).2
    rw [UInt64.lt_iff_toNat_lt]
    omega
  exact List.pairwise_map.2 (hrows.filter p)

end InOrder

/-! ## What an offer does -/

section Offer

variable {m : Memory} {o : Offer}

/-- The row is at the place behind the last of its table, and the permit is for that table. -/
def Offer.Fits (m : Memory) (o : Offer) : Prop :=
  o.permit = o.row.table ∧ o.row.position.toNat = (m.rows.get o.row.table).length + 1

/-- Why an offer is refused, looking at the permit first. -/
def Offer.refusal (m : Memory) (o : Offer) : Failure :=
  let next := (m.rows.get o.row.table).length + 1
  if o.permit ≠ o.row.table then .storage s!"permit for {o.permit.name} used on {o.row.table.name} row"
  else if o.row.position.toNat < next then .immutable o.row.table .update
  else .storage s!"{o.row.table.name} append at position {o.row.position.toNat} leaves a gap (next is {next})"

theorem append_of_fits (h : o.Fits m) : Store.append o.permit o.row m = (.ok o.row, m.push o.row) := by
  have happend : m.append o.permit o.row = .ok (m.push o.row) := by rw [h.1, append_of_next h.2]
  simp only [Store.append, happend]

theorem append_of_not_fits (h : ¬ o.Fits m) : Store.append o.permit o.row m = (.error (o.refusal m), m) := by
  have happend : m.append o.permit o.row = .error (o.refusal m) := by
    unfold append size Offer.refusal
    dsimp only
    split
    · rfl
    · split
      · rfl
      · rename_i hpermit _
        rw [if_pos fun hnext => h ⟨not_not.1 hpermit, hnext⟩]
  simp only [Store.append, happend]

/-- Only the table of the row can grow, and only by the row. -/
theorem rows_offer (m : Memory) (o : Offer) (t : Table) :
    (m.offer o).rows.get t = m.rows.get t ∨
      (t = o.row.table ∧ o.Fits m ∧ (m.offer o).rows.get t = m.rows.get t ++ [o.row]) := by
  unfold offer
  by_cases h : o.Fits m
  · rw [append_of_fits h, rows_push]
    split
    · exact .inr ⟨‹_›, h, rfl⟩
    · exact .inl rfl
  · rw [append_of_not_fits h]
    exact .inl rfl

theorem rows_prefix_offer (m : Memory) (o : Offer) (t : Table) : m.rows.get t <+: (m.offer o).rows.get t := by
  rcases rows_offer m o t with h | ⟨-, -, h⟩ <;> rw [h]
  exact List.prefix_append _ _

theorem rows_prefix_offered (m : Memory) (offers : List Offer) (t : Table) :
    m.rows.get t <+: (m.offered offers).rows.get t := by
  induction offers generalizing m with
  | nil => exact List.prefix_refl _
  | cons o offers ih => exact (rows_prefix_offer m o t).trans (ih (m.offer o))

end Offer

/-! ## What every store in memory keeps to -/

/-- The rows of every table are in order, and the index of links agrees with them. -/
structure Kept (m : Memory) : Prop where
  ordered : ∀ t, InOrder t (m.rows.get t)
  indexed : m.Indexed

theorem kept_empty : Memory.empty.Kept where
  ordered t := by
    rw [Memory.empty, PerTable.get_ofFn]
    intro i r hr
    cases hr
  indexed := indexed_empty

theorem Kept.offer {m : Memory} (h : m.Kept) (o : Offer) : (m.offer o).Kept where
  ordered t := by
    rcases rows_offer m o t with hsame | ⟨rfl, hfits, hgrown⟩
    · rw [hsame]
      exact h.ordered t
    · rw [hgrown]
      exact (h.ordered _).snoc rfl hfits.2
  indexed := by
    unfold Memory.offer
    by_cases hfits : o.Fits m
    · rw [append_of_fits hfits]
      exact h.indexed.push o.row
    · rw [append_of_not_fits hfits]
      exact h.indexed

theorem Kept.offered {m : Memory} (h : m.Kept) (offers : List Offer) : (m.offered offers).Kept := by
  induction offers generalizing m with
  | nil => exact h
  | cons o offers ih => exact ih (h.offer o)

theorem Kept.placed {m : Memory} (h : m.Kept) : m.Placed := fun t i r hr => (h.ordered t i r hr).2

/-! ## What is read and taken -/

/-- What each read of a table says, of rows that are in order. -/
structure Reads (m : Memory) (t : Table) : Prop where
  ordered : InOrder t (m.rows.get t)
  scan : Store.scan t m = (.ok (m.rows.get t), m)
  tail : Store.tail t m = (.ok (m.rows.get t).getLast?, m)
  /-- At a place where there is a row, that row is read, -/
  get : ∀ (i : ℕ) r (position : UInt64), (m.rows.get t)[i]? = some r → position.toNat = i + 1 →
    Store.get t position m = (.ok (some r), m)
  /-- and at any other, none. -/
  absent : ∀ position : UInt64, position.toNat = 0 ∨ (m.rows.get t).length < position.toNat →
    Store.get t position m = (.ok none, m)
  /-- A link names the positions of exactly the rows with the link, in increasing order. -/
  links : ∀ link, ∃ positions, Store.positionsByLink t link m = (.ok positions, m) ∧
    positions.Pairwise (· < ·) ∧
    ∀ position, position ∈ positions ↔ ∃ r ∈ m.rows.get t, r.linkId = link ∧ r.position = position

/-- How an offer is answered, and what it leaves. -/
structure Settles (m : Memory) (o : Offer) : Prop where
  accepted : (∃ stored, (Store.append o.permit o.row m).1 = .ok stored) ↔
    o.permit = o.row.table ∧ o.row.position.toNat = (m.rows.get o.row.table).length + 1
  /-- The row that is taken is behind the last of its table, and nothing else changes. -/
  taken : ∀ stored, (Store.append o.permit o.row m).1 = .ok stored → stored = o.row ∧
    ∀ t, (m.offer o).rows.get t = if t = o.row.table then m.rows.get t ++ [o.row] else m.rows.get t
  /-- No permit reaches into another table. -/
  misused : o.permit ≠ o.row.table → (Store.append o.permit o.row m).1 =
    .error (.storage s!"permit for {o.permit.name} used on {o.row.table.name} row")
  /-- A place that is taken stays as it is, -/
  occupied : o.permit = o.row.table → o.row.position.toNat ≤ (m.rows.get o.row.table).length →
    (Store.append o.permit o.row m).1 = .error (.immutable o.row.table .update)
  /-- and none is left out. -/
  gap : ∀ next, next = (m.rows.get o.row.table).length + 1 → o.permit = o.row.table → next < o.row.position.toNat →
    (Store.append o.permit o.row m).1 = .error (.storage
      s!"{o.row.table.name} append at position {o.row.position.toNat} leaves a gap (next is {next})")
  unchanged : ∀ f, (Store.append o.permit o.row m).1 = .error f → m.offer o = m
  /-- In any case only the table of the row can grow, and by one row at most. -/
  grown : ∀ t, m.rows.get t <+: (m.offer o).rows.get t ∧
    ((m.offer o).rows.get t ≠ m.rows.get t →
      t = o.row.table ∧ ((m.offer o).rows.get t).length = (m.rows.get t).length + 1)

theorem row?_eq_none {m : Memory} {t : Table} {position : UInt64}
    (h : position.toNat = 0 ∨ (m.rows.get t).length < position.toNat) : m.row? t position = none := by
  unfold row?
  split
  · rfl
  · rename_i hne
    have hpos : position.toNat ≠ 0 := fun h0 => hne (UInt64.toNat_inj.1 h0)
    exact List.getElem?_eq_none (by omega)

theorem Kept.reads {m : Memory} (h : m.Kept) (t : Table) : m.Reads t where
  ordered := h.ordered t
  scan := rfl
  tail := rfl
  get i r position hr hposition := by
    have hsame : r.position = position :=
      UInt64.toNat_inj.1 (((h.ordered t i r hr).2).trans hposition.symm)
    show (Except.ok (m.row? t position), m) = _
    rw [← hsame, h.placed.row?_position (List.mem_iff_getElem?.2 ⟨i, hr⟩)]
  absent position hposition := by
    show (Except.ok (m.row? t position), m) = _
    rw [row?_eq_none hposition]
  links link := by
    refine ⟨_, rfl, ?_, fun position => ?_⟩
    · rw [h.indexed t link]
      exact (h.ordered t).increasing _
    · rw [h.indexed t link, List.mem_map]
      simp only [List.mem_filter, decide_eq_true_eq, and_assoc]

/-- An offer adds to its own table, one row at most. -/
theorem grown_offer (m : Memory) (o : Offer) (t : Table) : m.rows.get t <+: (m.offer o).rows.get t ∧
    ((m.offer o).rows.get t ≠ m.rows.get t →
      t = o.row.table ∧ ((m.offer o).rows.get t).length = (m.rows.get t).length + 1) := by
  refine ⟨rows_prefix_offer m o t, fun hne => ?_⟩
  rcases rows_offer m o t with hsame | ⟨ht, -, hgrown⟩
  · exact absurd hsame hne
  · exact ⟨ht, by rw [hgrown, List.length_append, List.length_singleton]⟩

theorem settles (m : Memory) (o : Offer) : m.Settles o := by
  by_cases hfits : o.Fits m
  · -- what fits is taken, so none of the reasons to refuse applies
    have hposition := hfits.2
    refine ⟨?_, ?_, fun h => absurd hfits.1 h, fun _ hle => by omega, fun next _ _ hlt => by omega, fun f hf => ?_,
      grown_offer m o⟩
    · rw [append_of_fits hfits]
      exact iff_of_true ⟨_, rfl⟩ hfits
    · rintro stored hstored
      rw [append_of_fits hfits] at hstored
      cases hstored
      refine ⟨rfl, fun t => ?_⟩
      rw [offer, append_of_fits hfits, rows_push]
    · rw [append_of_fits hfits] at hf
      cases hf
  · have hanswer : (Store.append o.permit o.row m).1 = .error (o.refusal m) := by rw [append_of_not_fits hfits]
    refine ⟨?_, fun stored hstored => ?_, fun hne => ?_, fun hpermit hle => ?_, ?_, fun f _ => ?_, grown_offer m o⟩
    · rw [hanswer]
      exact iff_of_false (fun ⟨stored, hstored⟩ => by cases hstored) hfits
    · rw [hanswer] at hstored
      cases hstored
    · rw [hanswer, Offer.refusal]
      exact congrArg Except.error (if_pos hne)
    · rw [hanswer, Offer.refusal]
      simp only [hpermit, ne_eq, not_true_eq_false, if_false]
      exact congrArg Except.error (if_pos (by omega))
    · rintro _ rfl hpermit hlt
      rw [hanswer, Offer.refusal]
      simp only [hpermit, ne_eq, not_true_eq_false, if_false]
      exact congrArg Except.error (if_neg (by omega))
    · rw [offer, append_of_not_fits hfits]

/-! ## Whoever calls -/

/-- Whatever is offered to an empty store, in whatever order: every table reads as rows that stand where
they say, every further offer is settled by its place and its permit, and no row that was taken is ever
changed or lost. -/
theorem append_only (offers : List Offer) :
    (∀ t, (empty.offered offers).Reads t) ∧ (∀ o, (empty.offered offers).Settles o) ∧
      ∀ more t, (empty.offered offers).rows.get t <+: (empty.offered (offers ++ more)).rows.get t := by
  refine ⟨(kept_empty.offered offers).reads, settles _, fun more t => ?_⟩
  rw [offered, offered, List.foldl_append]
  exact rows_prefix_offered _ more t

end TradeLedger.Memory

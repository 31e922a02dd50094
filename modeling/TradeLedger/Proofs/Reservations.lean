/-
Reservations at one index, made, committed and dropped in any order and any number of them open at once,
while identifiers are reserved by themselves, signals are restored and executions become known.

Two of these can hit what an open reservation has taken: a signal may be restored under its dedupe key
or its identifier. So a reservation cannot know that what it holds is still merely held. What it can know
is that nobody else holds it, and this is all that dropping it needs. The invariant says what stands
under every key and identifier by what has happened (`Desk.Agrees`): what was ever published is known,
and of the rest exactly that is held which somebody open has reserved.
-/
import TradeLedger.Proofs.Index

namespace TradeLedger

/-! ## Keys and their values -/

namespace Assoc

variable {κ α : Type} [DecidableEq κ]

/-- No key has two values. -/
def Distinct (m : Assoc κ α) : Prop := (m.entries.map Prod.fst).Nodup

/-- A key keeps its place, and a new one comes last. -/
theorem map_fst_put (k : κ) (a : α) (es : List (κ × α)) :
    (put k a es).map Prod.fst = if k ∈ es.map Prod.fst then es.map Prod.fst else es.map Prod.fst ++ [k] := by
  induction es with
  | nil => simp [put]
  | cons e rest ih =>
    obtain ⟨l, b⟩ := e
    by_cases h : k = l
    · simp [put, h]
    · rw [put, if_neg h, List.map_cons, ih]
      by_cases hk : k ∈ rest.map Prod.fst <;> simp [h, hk]

theorem Distinct.set {m : Assoc κ α} (h : m.Distinct) (k : κ) (a : α) : (m.set k a).Distinct := by
  show ((put k a m.entries).map Prod.fst).Nodup
  rw [map_fst_put]
  split
  · exact h
  · rename_i hk
    exact List.nodup_append_comm.1 (List.nodup_cons.2 ⟨hk, h⟩)

theorem Distinct.erase {m : Assoc κ α} (h : m.Distinct) (k : κ) : (m.erase k).Distinct :=
  h.sublist (List.filter_sublist.map _)

/-- Where no key has two values, the entries are what is found. -/
theorem Distinct.mem_entries_iff {m : Assoc κ α} (h : m.Distinct) {k : κ} {a : α} :
    (k, a) ∈ m.entries ↔ m.get? k = some a := by
  obtain ⟨es⟩ := m
  show (k, a) ∈ es ↔ find k es = some a
  induction es with
  | nil => simp [find]
  | cons e rest ih =>
    obtain ⟨l, b⟩ := e
    have h := List.nodup_cons.1 (show (l :: rest.map Prod.fst).Nodup from h)
    by_cases hk : k = l
    · subst hk
      have hnot : (k, a) ∉ rest := fun hmem => h.1 (List.mem_map_of_mem (f := Prod.fst) hmem)
      simp [find, hnot, eq_comm]
    · simp [find, hk, ih h.2]

end Assoc

/-! ## What happens at an index -/

/-- Something done to an index. A reservation is named by its place among those that are open, so that none
is ended twice. -/
inductive Booking where
  /-- Reserves an identifier by itself. -/
  | reserve (id : Uuid)
  | reserveSignal (dedupeKey : String) (draws : List Uuid)
  | commit (place : ℕ)
  | drop (place : ℕ)
  | restore (dedupeKey : String) (id : Uuid)
  | registerExecution (id : Uuid)

/-- An index, and what has happened at it. -/
structure Desk where
  index : Index
  /-- The reservations that are neither committed nor dropped. -/
  live : List Reservation
  /-- The identifiers that were reserved by themselves. -/
  barred : List Uuid
  /-- What was committed or restored, the latest last. -/
  published : List (String × Uuid)
  registered : List Uuid

namespace Desk

def opening : Desk := ⟨.empty, [], [], [], []⟩

/-- The desk without one of the open reservations, the index left as it is. -/
def without (s : Desk) (place : ℕ) : Desk := { s with live := s.live.eraseIdx place }

@[simp] theorem published_without (s : Desk) (place : ℕ) : (s.without place).published = s.published := rfl

def step (s : Desk) : Booking → Desk
  | .reserve id =>
    match s.index.reserve id with
    | some index => { s with index, barred := s.barred ++ [id] }
    | none => s
  | .reserveSignal dedupeKey draws =>
    match s.index.reserveSignal dedupeKey draws with
    | .ok (res, index) => { s with index, live := s.live ++ [res] }
    | .error _ => s
  | .commit place =>
    match s.live[place]? with
    | some res =>
      { s.without place with
        index := s.index.commit res
        published := s.published ++ [(res.dedupeKey, res.correlationId)] }
    | none => s
  | .drop place =>
    match s.live[place]? with
    | some res => { s.without place with index := s.index.release res }
    | none => s
  | .restore dedupeKey id =>
    { s with index := s.index.restore dedupeKey id, published := s.published ++ [(dedupeKey, id)] }
  | .registerExecution id =>
    { s with index := s.index.registerExecution id, registered := s.registered ++ [id] }

def run (s : Desk) (bookings : List Booking) : Desk := bookings.foldl step s

/-! ## What has happened -/

/-- The dedupe keys of the open reservations. -/
def heldKeys (s : Desk) : List String := s.live.map Reservation.dedupeKey

/-- The identifiers of the open reservations, and those that were reserved by themselves. -/
def heldIds (s : Desk) : List Uuid := s.live.map Reservation.correlationId ++ s.barred

/-- The identifier that was published last under a dedupe key. -/
def latest (published : List (String × Uuid)) (key : String) : Option Uuid :=
  (published.filter (·.1 = key)).getLast?.map Prod.snd

/-- What should stand under a dedupe key. -/
def keyStanding (s : Desk) (key : String) : Option Claim :=
  match latest s.published key with
  | some id => some (.committed id)
  | none => if key ∈ s.heldKeys then some .held else none

/-- How an identifier should stand. -/
def idStanding (s : Desk) (id : Uuid) : Option Standing :=
  if id ∈ s.published.map Prod.snd then some .committed
  else if id ∈ s.heldIds then some .held
  else none

theorem latest_append (published : List (String × Uuid)) (key : String) (p : String × Uuid) :
    latest (published ++ [p]) key = if key = p.1 then some p.2 else latest published key := by
  unfold latest
  rw [List.filter_append]
  by_cases h : p.1 = key
  · simp [h]
  · simp [h, Ne.symm h]

theorem latest_eq_none {published : List (String × Uuid)} {key : String} :
    latest published key = none ↔ ∀ p ∈ published, p.1 ≠ key := by
  simp [latest]

theorem keyStanding_congr {s s' : Desk} {key : String} (hlatest : latest s'.published key = latest s.published key)
    (hheld : key ∈ s'.heldKeys ↔ key ∈ s.heldKeys) : s'.keyStanding key = s.keyStanding key := by
  unfold keyStanding
  rw [hlatest]
  simp only [hheld]

theorem idStanding_congr {s s' : Desk} {id : Uuid}
    (hpublished : id ∈ s'.published.map Prod.snd ↔ id ∈ s.published.map Prod.snd)
    (hheld : id ∈ s'.heldIds ↔ id ∈ s.heldIds) : s'.idStanding id = s.idStanding id := by
  unfold idStanding
  simp only [hpublished, hheld]

/-- The index is as what has happened says. -/
structure Agrees (s : Desk) : Prop where
  keys : s.heldKeys.Nodup
  ids : s.heldIds.Nodup
  key : ∀ k, s.index.dedupeKeys.get? k = s.keyStanding k
  id : ∀ i, s.index.correlations.get? i = s.idStanding i
  executions : ∀ i, s.index.hasExecution i = true ↔ i ∈ s.registered
  distinct : s.index.correlations.Distinct

namespace Agrees

variable {s s' : Desk} {key : String} {id : Uuid} {res : Reservation} {place : ℕ}

theorem opening : Desk.opening.Agrees where
  keys := .nil
  ids := .nil
  key _ := rfl
  id _ := rfl
  executions := by simp [Desk.opening, Index.empty, Index.hasExecution]
  distinct := .nil

theorem key_eq_none (h : s.Agrees) (k : String) :
    s.index.dedupeKeys.get? k = none ↔ k ∉ s.heldKeys ∧ ∀ p ∈ s.published, p.1 ≠ k := by
  rw [h.key, keyStanding, ← latest_eq_none]
  cases latest s.published k <;> simp

theorem id_eq_none (h : s.Agrees) (i : Uuid) :
    s.index.correlations.get? i = none ↔ i ∉ s.heldIds ∧ i ∉ s.published.map Prod.snd := by
  rw [h.id, idStanding]
  split <;> simp [*]

/-- An open reservation that is ended has held its key and its identifier alone. -/
theorem without_place (h : s.Agrees) (hres : s.live[place]? = some res) :
    ((s.without place).heldKeys.Nodup ∧
        ∀ k, k ∈ (s.without place).heldKeys ↔ k ∈ s.heldKeys ∧ k ≠ res.dedupeKey) ∧
      (s.without place).heldIds.Nodup ∧
        ∀ i, i ∈ (s.without place).heldIds ↔ i ∈ s.heldIds ∧ i ≠ res.correlationId := by
  obtain ⟨hplace, rfl⟩ := List.getElem?_eq_some_iff.1 hres
  have hperm : (s.live[place] :: s.live.eraseIdx place).Perm s.live := List.getElem_cons_eraseIdx_perm hplace
  have hkeyPerm : (s.live[place].dedupeKey :: (s.without place).heldKeys).Perm s.heldKeys := hperm.map _
  have hidPerm : (s.live[place].correlationId :: (s.without place).heldIds).Perm s.heldIds :=
    (hperm.map Reservation.correlationId).append_right s.barred
  have hk := List.nodup_cons.1 (hkeyPerm.nodup_iff.2 h.keys)
  have hi := List.nodup_cons.1 (hidPerm.nodup_iff.2 h.ids)
  refine ⟨⟨hk.2, fun k => ?_⟩, hi.2, fun i => ?_⟩
  · rw [← hkeyPerm.mem_iff, List.mem_cons]
    constructor
    · exact fun hmem => ⟨.inr hmem, fun heq => hk.1 (heq ▸ hmem)⟩
    · exact fun ⟨hmem, hne⟩ => hmem.resolve_left hne
  · rw [← hidPerm.mem_iff, List.mem_cons]
    constructor
    · exact fun hmem => ⟨.inr hmem, fun heq => hi.1 (heq ▸ hmem)⟩
    · exact fun ⟨hmem, hne⟩ => hmem.resolve_left hne

/-! ### Steps -/

/-- A signal is published, and at most what it stands for is no longer held. -/
theorem publish (h : s.Agrees) (hindex : s'.index = s.index.restore key id)
    (hpublished : s'.published = s.published ++ [(key, id)]) (hregistered : s'.registered = s.registered)
    (hkeys : s'.heldKeys.Nodup) (hids : s'.heldIds.Nodup) (hkey : ∀ k, k ≠ key → (k ∈ s'.heldKeys ↔ k ∈ s.heldKeys))
    (hid : ∀ i, i ≠ id → (i ∈ s'.heldIds ↔ i ∈ s.heldIds)) : s'.Agrees where
  keys := hkeys
  ids := hids
  key k := by
    rw [hindex, Index.dedupeKeys_restore, h.key]
    by_cases hk : k = key
    · rw [if_pos hk, keyStanding, hpublished, latest_append, if_pos hk]
    · rw [if_neg hk]
      exact (keyStanding_congr (by rw [hpublished, latest_append, if_neg hk]) (hkey k hk)).symm
  id i := by
    rw [hindex, Index.correlations_restore, h.id]
    by_cases hi : i = id
    · rw [if_pos hi, idStanding, hpublished, if_pos (by simp [hi])]
    · rw [if_neg hi]
      exact (idStanding_congr (by simp [hpublished, hi]) (hid i hi)).symm
  executions i := by
    rw [hindex, hregistered]
    exact h.executions i
  distinct := by
    rw [hindex]
    exact h.distinct.set _ _

theorem commit (h : s.Agrees) (place : ℕ) : (s.step (.commit place)).Agrees := by
  rw [step]
  split
  · rename_i res hres
    obtain ⟨⟨hkeys, hkey⟩, hids, hid⟩ := h.without_place hres
    exact h.publish rfl rfl rfl hkeys hids (fun k hk => (hkey k).trans (and_iff_left hk))
      fun i hi => (hid i).trans (and_iff_left hi)
  · exact h

/-- What was published stays so, and only what is still merely held is free again. -/
theorem drop (h : s.Agrees) (place : ℕ) : (s.step (.drop place)).Agrees := by
  rw [step]
  split
  · rename_i res hres
    obtain ⟨⟨hkeys, hkey⟩, hids, hid⟩ := h.without_place hres
    refine ⟨hkeys, hids, fun k => ?_, fun i => ?_, h.executions, ?_⟩
    · show (s.index.release res).dedupeKeys.get? k = (s.without place).keyStanding k
      rw [Index.dedupeKeys_release, h.key, keyStanding, keyStanding, published_without]
      simp only [hkey]
      cases latest s.published k with
      | some id => simp
      | none => by_cases hk : k = res.dedupeKey <;> simp [hk]
    · show (s.index.release res).correlations.get? i = (s.without place).idStanding i
      rw [Index.correlations_release, h.id, idStanding, idStanding, published_without]
      simp only [hid]
      by_cases hpublished : i ∈ s.published.map Prod.snd
      · rw [if_pos hpublished, if_pos hpublished]
        exact if_neg fun hheld => nomatch hheld.2
      · simp only [hpublished, if_false]
        by_cases hi : i = res.correlationId <;> simp [hi]
    · show (if _ then s.index.correlations.erase _ else s.index.correlations).Distinct
      split
      · exact h.distinct.erase _
      · exact h.distinct
  · exact h

theorem restore (h : s.Agrees) (key : String) (id : Uuid) : (s.step (.restore key id)).Agrees :=
  h.publish rfl rfl rfl h.keys h.ids (fun _ _ => Iff.rfl) fun _ _ => Iff.rfl

/-- An identifier that is held from now on, and was free. -/
theorem idStanding_hold (h : s.Agrees) {index : Index} (id : Uuid) (hids : ∀ i, i ∈ s'.heldIds ↔ i ∈ s.heldIds ∨ i = id)
    (hpublished : s'.published = s.published) (hfree : s.index.correlations.get? id = none)
    (hindex : index.correlations = s.index.correlations.set id .held) (i : Uuid) :
    index.correlations.get? i = s'.idStanding i := by
  rw [hindex, Assoc.get?_set, h.id]
  by_cases hi : i = id
  · have hnot := ((h.id_eq_none id).1 hfree).2
    rw [if_pos hi, hi, idStanding, hpublished, if_neg hnot, if_pos ((hids id).2 (.inr rfl))]
  · rw [if_neg hi]
    exact (idStanding_congr (by rw [hpublished]) ((hids i).trans (or_iff_left hi))).symm

theorem reserve (h : s.Agrees) (id : Uuid) : (s.step (.reserve id)).Agrees := by
  rw [step]
  unfold Index.reserve
  by_cases hfree : s.index.correlations.get? id = none
  · rw [if_neg (by simp [Assoc.contains, hfree])]
    have hnot := ((h.id_eq_none id).1 hfree).1
    refine ⟨h.keys, ?_, h.key, h.idStanding_hold id (fun i => ?_) rfl hfree rfl, h.executions,
      h.distinct.set _ _⟩
    · show (s.live.map Reservation.correlationId ++ (s.barred ++ [id])).Nodup
      rw [← List.append_assoc]
      exact List.nodup_append_comm.1 (List.nodup_cons.2 ⟨hnot, h.ids⟩)
    · show i ∈ s.live.map Reservation.correlationId ++ (s.barred ++ [id]) ↔ _
      rw [← List.append_assoc, List.mem_append, List.mem_singleton]
      rfl
  · rw [if_pos (by simpa [Assoc.contains, Option.isSome_iff_ne_none] using hfree)]
    exact h

theorem reserveSignal (h : s.Agrees) (key : String) (draws : List Uuid) :
    (s.step (.reserveSignal key draws)).Agrees := by
  rw [step]
  split
  · rename_i res index hreserve
    obtain ⟨rfl, -, hkey, hid, rfl⟩ := Index.reserveSignal_eq_ok hreserve
    obtain ⟨hkeyNot, hkeyUnpublished⟩ := (h.key_eq_none _).1 hkey
    have hidNot := ((h.id_eq_none _).1 hid).1
    have hidPerm : ((s.live ++ [res]).map Reservation.correlationId ++ s.barred).Perm
        (res.correlationId :: s.heldIds) := by
      rw [List.map_append, List.append_assoc]
      exact List.perm_middle
    refine ⟨?_, hidPerm.nodup_iff.2 (List.nodup_cons.2 ⟨hidNot, h.ids⟩), fun k => ?_,
      h.idStanding_hold res.correlationId (fun i => ?_) rfl hid rfl, h.executions, h.distinct.set _ _⟩
    · show ((s.live ++ [res]).map Reservation.dedupeKey).Nodup
      rw [List.map_append]
      exact List.nodup_append_comm.1 (List.nodup_cons.2 ⟨hkeyNot, h.keys⟩)
    · show (s.index.dedupeKeys.set res.dedupeKey .held).get? k = _
      rw [Assoc.get?_set, h.key]
      by_cases hk : k = res.dedupeKey
      · rw [if_pos hk, hk, keyStanding, latest_eq_none.2 hkeyUnpublished]
        simp [heldKeys]
      · rw [if_neg hk]
        have hheld : k ∈ (s.live ++ [res]).map Reservation.dedupeKey ↔ k ∈ s.heldKeys := by simp [heldKeys, hk]
        refine (keyStanding_congr ?_ ?_).symm
        · rfl
        · exact hheld
    · rw [heldIds, hidPerm.mem_iff, List.mem_cons, or_comm]
  · exact h

theorem registerExecution (h : s.Agrees) (id : Uuid) : (s.step (.registerExecution id)).Agrees where
  keys := h.keys
  ids := h.ids
  key k := by
    show (s.index.registerExecution id).dedupeKeys.get? k = s.keyStanding k
    rw [Index.dedupeKeys_registerExecution, h.key]
  id i := by
    show (s.index.registerExecution id).correlations.get? i = s.idStanding i
    rw [Index.correlations_registerExecution, h.id]
  executions i := by
    show (s.index.registerExecution id).hasExecution i = true ↔ i ∈ s.registered ++ [id]
    rw [Index.hasExecution_registerExecution, h.executions, List.mem_append, List.mem_singleton, eq_comm (a := id)]
  distinct := by
    show (s.index.registerExecution id).correlations.Distinct
    rw [Index.correlations_registerExecution]
    exact h.distinct

theorem step (h : s.Agrees) (b : Booking) : (s.step b).Agrees := by
  cases b with
  | reserve id => exact h.reserve id
  | reserveSignal key draws => exact h.reserveSignal key draws
  | commit place => exact h.commit place
  | drop place => exact h.drop place
  | restore key id => exact h.restore key id
  | registerExecution id => exact h.registerExecution id

theorem run (h : s.Agrees) (bookings : List Booking) : (s.run bookings).Agrees := by
  induction bookings generalizing s with
  | nil => exact h
  | cons b bookings ih => exact ih (h.step b)

end Agrees

/-! ## What is kept -/

theorem published_step (s : Desk) (b : Booking) : s.published <+: (s.step b).published := by
  cases b with
  | reserve id | reserveSignal key draws | drop place => rw [step]; split <;> exact List.prefix_refl _
  | commit place =>
    rw [step]
    split
    · exact List.prefix_append _ _
    · exact List.prefix_refl _
  | restore key id => exact List.prefix_append _ _
  | registerExecution id => exact List.prefix_refl _

theorem registered_step (s : Desk) (b : Booking) : s.registered <+: (s.step b).registered := by
  cases b with
  | reserve id | reserveSignal key draws | commit place | drop place => rw [step]; split <;> exact List.prefix_refl _
  | restore key id => exact List.prefix_refl _
  | registerExecution id => exact List.prefix_append _ _

/-- Nothing that has happened is forgotten. -/
theorem prefix_run (s : Desk) (bookings : List Booking) :
    s.published <+: (s.run bookings).published ∧ s.registered <+: (s.run bookings).registered := by
  induction bookings generalizing s with
  | nil => exact ⟨List.prefix_refl _, List.prefix_refl _⟩
  | cons b bookings ih =>
    obtain ⟨hpublished, hregistered⟩ := ih (s.step b)
    exact ⟨(s.published_step b).trans hpublished, (s.registered_step b).trans hregistered⟩

/-- As many identifiers are committed as were ever published. -/
theorem Agrees.committedCount_eq {s : Desk} (h : s.Agrees) :
    s.index.committedCount = (s.published.map Prod.snd).toFinset.card := by
  let known := (s.index.correlations.entries.filter (·.2 = .committed)).map Prod.fst
  have hnodup : known.Nodup := h.distinct.sublist (List.filter_sublist.map _)
  have hknown (i : Uuid) : i ∈ known ↔ i ∈ s.published.map Prod.snd := by
    have hentry : i ∈ known ↔ (i, Standing.committed) ∈ s.index.correlations.entries := by
      simp [known]
    rw [hentry, h.distinct.mem_entries_iff, h.id, idStanding]
    by_cases hpublished : i ∈ s.published.map Prod.snd
    · simp only [hpublished, if_true]
    · simp only [hpublished, if_false, iff_false]
      split <;> simp
  calc s.index.committedCount = known.length := by
        rw [Index.committedCount, List.countP_eq_length_filter, List.length_map]
    _ = known.toFinset.card := (List.toFinset_card_of_nodup hnodup).symm
    _ = (s.published.map Prod.snd).toFinset.card := by
        congr 1
        ext i
        rw [List.mem_toFinset, List.mem_toFinset, hknown]

/-! ## Order at the desk -/

/-- An identifier is held by somebody, or was published. -/
def Taken (s : Desk) (id : Uuid) : Prop :=
  (∃ res ∈ s.live, res.correlationId = id) ∨ id ∈ s.barred ∨ ∃ p ∈ s.published, p.2 = id

/-- A dedupe key has an open reservation, or something was published under it. -/
def TakenKey (s : Desk) (key : String) : Prop :=
  (∃ res ∈ s.live, res.dedupeKey = key) ∨ ∃ p ∈ s.published, p.1 = key

/-- What it changes that an open reservation is dropped. -/
structure Frees (x : Index) (res : Reservation) (y : Index) : Prop where
  /-- The key is free exactly if it was still merely held; else it stands as it did. -/
  key : y.dedupeKeys.get? res.dedupeKey = none ↔ x.dedupeKeys.get? res.dedupeKey = some .held
  keyKept : x.dedupeKeys.get? res.dedupeKey ≠ some .held →
    y.dedupeKeys.get? res.dedupeKey = x.dedupeKeys.get? res.dedupeKey
  /-- So it is with the identifier. -/
  id : y.correlations.get? res.correlationId = none ↔ x.correlations.get? res.correlationId = some .held
  idKept : x.correlations.get? res.correlationId ≠ some .held →
    y.correlations.get? res.correlationId = x.correlations.get? res.correlationId
  /-- Nothing else changes. -/
  otherKeys : ∀ key, key ≠ res.dedupeKey → y.dedupeKeys.get? key = x.dedupeKeys.get? key
  otherIds : ∀ id, id ≠ res.correlationId → y.correlations.get? id = x.correlations.get? id
  executions : y.executions = x.executions

/-- How an index stands, and what it answers, after all that has happened. -/
structure Orderly (s : Desk) : Prop where
  /-- No two open reservations share a dedupe key or an identifier. -/
  keys : (s.live.map Reservation.dedupeKey).Nodup
  ids : (s.live.map Reservation.correlationId).Nodup
  /-- A dedupe key is refused exactly if it has an open reservation or was ever published; -/
  refused : ∀ key draws,
    s.index.reserveSignal key draws = .error (.duplicateSignal key) ↔ s.TakenKey key
  /-- else it is granted, if any of the identifiers drawn is free; -/
  granted : ∀ key draws, (∃ res x, s.index.reserveSignal key draws = .ok (res, x)) ↔
    ¬ s.TakenKey key ∧ ∃ id ∈ draws, ¬ s.Taken id
  /-- and what is granted was neither held nor published. -/
  fresh : ∀ key draws res x, s.index.reserveSignal key draws = .ok (res, x) →
    res.dedupeKey = key ∧ ¬ s.TakenKey key ∧ res.correlationId ∈ draws ∧ ¬ s.Taken res.correlationId
  /-- Nor is an identifier reserved by itself that somebody holds or that was published. -/
  reserve : ∀ id, s.index.reserve id = none ↔ s.Taken id
  known : ∀ id, s.index.hasCorrelation id = true ↔ ∃ p ∈ s.published, p.2 = id
  lookup : ∀ key, s.index.lookup key = latest s.published key
  executions : ∀ id, s.index.hasExecution id = true ↔ id ∈ s.registered
  /-- As many identifiers are committed as were ever published. -/
  count : s.index.committedCount = (s.published.map Prod.snd).toFinset.card
  /-- What an open reservation has taken is still merely held exactly if it was not published, -/
  heldKey : ∀ res ∈ s.live, s.index.dedupeKeys.get? res.dedupeKey = some .held ↔
    ∀ p ∈ s.published, p.1 ≠ res.dedupeKey
  heldId : ∀ res ∈ s.live, s.index.correlations.get? res.correlationId = some .held ↔
    ∀ p ∈ s.published, p.2 ≠ res.correlationId
  /-- and this decides what is free once it is dropped. -/
  dropped : ∀ place res, s.live[place]? = some res → Frees s.index res (s.step (.drop place)).index

/-- What was known at one time is known later. -/
structure Since (s s' : Desk) : Prop where
  known : ∀ id, s.index.hasCorrelation id = true → s'.index.hasCorrelation id = true
  found : ∀ key, (s.index.lookup key).isSome → (s'.index.lookup key).isSome
  executions : ∀ id, s.index.hasExecution id = true → s'.index.hasExecution id = true
  count : s.index.committedCount ≤ s'.index.committedCount

namespace Agrees

variable {s s' : Desk}

theorem key_isSome (h : s.Agrees) (key : String) : (s.index.dedupeKeys.get? key).isSome ↔ s.TakenKey key := by
  rw [Option.isSome_iff_ne_none, ne_eq, h.key_eq_none, not_and_or, not_not]
  simp [TakenKey, heldKeys]

theorem id_isSome (h : s.Agrees) (id : Uuid) : (s.index.correlations.get? id).isSome ↔ s.Taken id := by
  rw [Option.isSome_iff_ne_none, ne_eq, h.id_eq_none, not_and_or, not_not, not_not]
  simp [Taken, heldIds, or_assoc]

theorem fresh (h : s.Agrees) {key : String} {draws : List Uuid} {res : Reservation} {x : Index}
    (hreserve : s.index.reserveSignal key draws = .ok (res, x)) :
    res.dedupeKey = key ∧ ¬ s.TakenKey key ∧ res.correlationId ∈ draws ∧ ¬ s.Taken res.correlationId := by
  obtain ⟨hkey, hdrawn, hfree, hid, -⟩ := Index.reserveSignal_eq_ok hreserve
  refine ⟨hkey, ?_, hdrawn, ?_⟩
  · rw [← h.key_isSome, hfree]
    exact Bool.false_ne_true
  · rw [← h.id_isSome, hid]
    exact Bool.false_ne_true

theorem granted_iff (h : s.Agrees) (key : String) (draws : List Uuid) :
    (∃ res x, s.index.reserveSignal key draws = .ok (res, x)) ↔ ¬ s.TakenKey key ∧ ∃ id ∈ draws, ¬ s.Taken id := by
  constructor
  · rintro ⟨res, x, hreserve⟩
    obtain ⟨-, hkey, hdrawn, hid⟩ := h.fresh hreserve
    exact ⟨hkey, _, hdrawn, hid⟩
  · rintro ⟨hkey, id, hdrawn, hid⟩
    cases hreserve : s.index.reserveSignal key draws with
    | ok p => exact ⟨p.1, p.2, rfl⟩
    | error f =>
      rcases Index.reserveSignal_eq_error hreserve with ⟨-, htaken⟩ | ⟨-, -, htaken⟩
      · exact absurd ((h.key_isSome key).1 htaken) hkey
      · exact absurd ((h.id_isSome id).1 (htaken id hdrawn)) hid

theorem frees (h : s.Agrees) {place : ℕ} {res : Reservation} (hres : s.live[place]? = some res) :
    Frees s.index res (s.step (.drop place)).index := by
  have hmem : res ∈ s.live := List.mem_of_getElem? hres
  have hkey := Option.isSome_iff_ne_none.1 ((h.key_isSome res.dedupeKey).2 (.inl ⟨res, hmem, rfl⟩))
  have hid := Option.isSome_iff_ne_none.1 ((h.id_isSome res.correlationId).2 (.inl ⟨res, hmem, rfl⟩))
  rw [Desk.step, hres]
  refine ⟨?_, fun hne => ?_, ?_, fun hne => ?_, fun k hk => ?_, fun i hi => ?_, rfl⟩
  · simp [Index.dedupeKeys_release, hkey]
  · simp [Index.dedupeKeys_release, hne]
  · simp [Index.correlations_release, hid]
  · simp [Index.correlations_release, hne]
  · simp [Index.dedupeKeys_release, hk]
  · simp [Index.correlations_release, hi]

theorem heldKey_iff (h : s.Agrees) {res : Reservation} (hres : res ∈ s.live) :
    s.index.dedupeKeys.get? res.dedupeKey = some .held ↔ ∀ p ∈ s.published, p.1 ≠ res.dedupeKey := by
  have hheld : res.dedupeKey ∈ s.heldKeys := List.mem_map_of_mem hres
  rw [h.key, keyStanding, ← latest_eq_none, if_pos hheld]
  cases latest s.published res.dedupeKey <;> simp

theorem heldId_iff (h : s.Agrees) {res : Reservation} (hres : res ∈ s.live) :
    s.index.correlations.get? res.correlationId = some .held ↔ ∀ p ∈ s.published, p.2 ≠ res.correlationId := by
  have hheld : res.correlationId ∈ s.heldIds := List.mem_append_left _ (List.mem_map_of_mem hres)
  rw [h.id, idStanding, if_pos hheld]
  by_cases hpublished : res.correlationId ∈ s.published.map Prod.snd
  · obtain ⟨p, hp, hid⟩ := List.mem_map.1 hpublished
    rw [if_pos hpublished]
    exact iff_of_false nofun fun hnone => hnone p hp hid
  · rw [if_neg hpublished]
    exact iff_of_true rfl fun p hp hid => hpublished (List.mem_map.2 ⟨p, hp, hid⟩)

theorem known_iff (h : s.Agrees) (id : Uuid) :
    s.index.hasCorrelation id = true ↔ ∃ p ∈ s.published, p.2 = id := by
  rw [Index.hasCorrelation, decide_eq_true_eq, h.id, idStanding, ← List.mem_map]
  split
  · simp [*]
  · split <;> simp [*]

theorem lookup_eq (h : s.Agrees) (key : String) : s.index.lookup key = latest s.published key := by
  rw [Index.lookup, h.key, keyStanding]
  cases latest s.published key with
  | some id => rfl
  | none => split <;> simp_all

theorem orderly (h : s.Agrees) : s.Orderly where
  keys := h.keys
  ids := h.ids.of_append_left
  refused key draws := Index.reserveSignal_duplicate_iff.trans (h.key_isSome key)
  granted := h.granted_iff
  fresh _ _ _ _ := h.fresh
  reserve id := by
    rw [← h.id_isSome, Index.reserve, Assoc.contains]
    split <;> simp [*]
  known := h.known_iff
  lookup := h.lookup_eq
  executions := h.executions
  count := h.committedCount_eq
  heldKey _ := h.heldKey_iff
  heldId _ := h.heldId_iff
  dropped _ _ := h.frees

/-- What was published is known for ever, as nothing published is forgotten. -/
theorem since (h : s.Agrees) (h' : s'.Agrees) (hpublished : s.published <+: s'.published)
    (hregistered : s.registered <+: s'.registered) : Since s s' where
  known id hid := by
    obtain ⟨p, hp, rfl⟩ := (h.known_iff id).1 hid
    exact (h'.known_iff _).2 ⟨p, hpublished.subset hp, rfl⟩
  found key hfound := by
    rw [h.lookup_eq, Option.isSome_iff_ne_none, ne_eq, latest_eq_none] at hfound
    rw [h'.lookup_eq, Option.isSome_iff_ne_none, ne_eq, latest_eq_none]
    exact fun hnone => hfound fun p hp => hnone p (hpublished.subset hp)
  executions id hid := (h'.executions id).2 (hregistered.subset ((h.executions id).1 hid))
  count := by
    rw [h.committedCount_eq, h'.committedCount_eq]
    refine Finset.card_le_card fun i hi => ?_
    rw [List.mem_toFinset] at hi ⊢
    exact (hpublished.map Prod.snd).subset hi

end Agrees

/-- Whatever happens at an index, in whatever order and with whatever identifiers drawn: open reservations
share nothing, each was free when it was granted, what is known is what was published, and nothing that
was published is ever withdrawn. -/
theorem reservations_orderly (bookings : List Booking) :
    (opening.run bookings).Orderly ∧ ∀ more, Since (opening.run bookings) (opening.run (bookings ++ more)) := by
  have h := Agrees.opening.run bookings
  refine ⟨h.orderly, fun more => ?_⟩
  have hmore : opening.run (bookings ++ more) = (opening.run bookings).run more := List.foldl_append ..
  rw [hmore]
  obtain ⟨hpublished, hregistered⟩ := prefix_run (opening.run bookings) more
  exact h.since (h.run more) hpublished hregistered

end Desk

end TradeLedger

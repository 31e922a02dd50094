/-
What calls for signals hold, and what is known of their rows. The dedupe key, the identifier, the row
and what is known of it move at four moments, and other calls act in between: `Reserved` follows each
call through them, and says at every moment what it still holds and whether its row is stored.
-/
import TradeLedger.Proofs.Session.Chains
import TradeLedger.Proofs.Session.Registry

namespace TradeLedger

/-! ## Rows of signals -/

/-- The signal that a row records, if it records one. -/
def Row.signal? (r : Row) : Option Signal :=
  match Envelope.decode r.content with
  | .ok { body := .signal s, .. } => some s
  | _ => none

/-- The signals that rows record. -/
def recorded (rows : List Row) : List Signal := rows.filterMap Row.signal?

/-- What stands under the dedupe keys of signals, once they are known. -/
def keysOf (signals : List Signal) : List (String × Claim) :=
  signals.map fun s => (s.dedupeKey, .committed s.correlationId)

/-- What stands under the identifiers of signals, once they are known. -/
def idsOf (signals : List Signal) : List (Uuid × Standing) := signals.map fun s => (s.correlationId, .committed)

theorem map_fst_keysOf (signals : List Signal) : (keysOf signals).map Prod.fst = signals.map Signal.dedupeKey :=
  List.map_map

theorem map_fst_idsOf (signals : List Signal) : (idsOf signals).map Prod.fst = signals.map Signal.correlationId :=
  List.map_map

theorem mem_keysOf {signals : List Signal} {k : String} {a : Claim} :
    (k, a) ∈ keysOf signals ↔ ∃ s ∈ signals, s.dedupeKey = k ∧ .committed s.correlationId = a := by
  simp [keysOf]

theorem recorded_append (rows : List Row) {r : Row} {s : Signal} (h : r.signal? = some s) :
    recorded (rows ++ [r]) = recorded rows ++ [s] := by
  rw [recorded, List.filterMap_append, List.filterMap_cons_some h]
  rfl

/-- What holds of a recorded signal is said by a row. -/
theorem exists_mem_recorded {rows : List Row} {P : Signal → Prop} :
    (∃ s ∈ recorded rows, P s) ↔ ∃ r ∈ rows, ∃ s, r.signal? = some s ∧ P s := by
  simp only [recorded, List.mem_filterMap]
  constructor
  · rintro ⟨s, ⟨r, hr, hs⟩, hP⟩
    exact ⟨r, hr, s, hs, hP⟩
  · rintro ⟨r, hr, s, hs, hP⟩
    exact ⟨s, ⟨r, hr, hs⟩, hP⟩

/-- Rows whose signals have different names are different rows. -/
theorem row_unique {α : Type} {rows : List Row} {f : Signal → α} (h : ((recorded rows).map f).Nodup) {r r' : Row}
    {s s' : Signal} (hr : r ∈ rows) (hr' : r' ∈ rows) (hs : r.signal? = some s) (hs' : r'.signal? = some s')
    (hf : f s = f s') : r = r' := by
  induction rows with
  | nil => cases hr
  | cons x rows ih =>
    have hmem {y : Row} {u : Signal} (hy : y ∈ rows) (hu : y.signal? = some u) : f u ∈ (recorded rows).map f :=
      List.mem_map_of_mem (List.mem_filterMap.2 ⟨y, hy, hu⟩)
    rcases List.mem_cons.1 hr with rfl | hrest <;> rcases List.mem_cons.1 hr' with rfl | hrest'
    · rfl
    · rw [recorded, List.filterMap_cons_some hs, List.map_cons, List.nodup_cons, hf] at h
      exact absurd (hmem hrest' hs') h.1
    · rw [recorded, List.filterMap_cons_some hs', List.map_cons, List.nodup_cons, ← hf] at h
      exact absurd (hmem hrest hs) h.1
    · refine ih ?_ hrest hrest'
      cases hx : x.signal? with
      | none => rwa [recorded, List.filterMap_cons_none hx] at h
      | some u =>
        rw [recorded, List.filterMap_cons_some hx, List.map_cons, List.nodup_cons] at h
        exact h.2

/-! ## What is known of rows -/

namespace Index

variable {x : Index}

theorem restoreRow_of_signal? {r : Row} {s : Signal} (h : r.signal? = some s) :
    x.restoreRow r = x.restore s.dedupeKey s.correlationId := by
  unfold Row.signal? at h
  split at h
  · rename_i e he
    cases h
    rw [restoreRow, Row.record, he]
    rfl
  · cases h

theorem dedupeKeys_registerRows (rows : List Row) : (rows.foldl registerRow x).dedupeKeys = x.dedupeKeys := by
  induction rows generalizing x with
  | nil => rfl
  | cons r rows ih =>
    rw [List.foldl_cons, ih, registerRow]
    split
    · exact dedupeKeys_registerExecution
    · rfl

theorem correlations_registerRows (rows : List Row) : (rows.foldl registerRow x).correlations = x.correlations := by
  induction rows generalizing x with
  | nil => rfl
  | cons r rows ih =>
    rw [List.foldl_cons, ih, registerRow]
    split
    · exact correlations_registerExecution
    · rfl

end Index

/-- Nothing is known of no rows. -/
theorem keys_empty : Registry .held Index.empty.dedupeKeys.get? (fun _ => none) (keysOf []) := .empty

theorem ids_empty : Registry .held Index.empty.correlations.get? (fun _ => none) (idsOf []) := .empty

/-- Whatever a restored signal is known by, the rows of signals with different names are known by theirs. -/
theorem Registry.restored {κ α : Type} [DecidableEq κ] {held : α} (get : Index → κ → Option α) (f : Signal → κ)
    (g : Signal → α) (hheld : ∀ s, g s ≠ held)
    (hrestore : ∀ (x : Index) (s : Signal) (k : κ),
      get (x.restore s.dedupeKey s.correlationId) k = if k = f s then some (g s) else get x k)
    {rows : List Row} (hrows : ∀ r ∈ rows, ∃ s, r.signal? = some s) {x : Index} {known : List Signal}
    (hnodup : ((known ++ recorded rows).map f).Nodup)
    (h : Registry held (get x) (fun _ => none) (known.map fun s => (f s, g s))) :
    Registry held (get (rows.foldl Index.restoreRow x)) (fun _ => none)
      ((known ++ recorded rows).map fun s => (f s, g s)) := by
  induction rows generalizing x known with
  | nil => simpa [recorded] using h
  | cons r rows ih =>
    obtain ⟨s, hs⟩ := hrows r List.mem_cons_self
    have hcons : known ++ recorded (r :: rows) = (known ++ [s]) ++ recorded rows := by
      rw [recorded, List.filterMap_cons_some hs, List.append_assoc]
      rfl
    rw [hcons] at hnodup ⊢
    -- the first row joins those that are known, and the rest is restored behind it
    refine ih (fun r hr => hrows r (List.mem_cons_of_mem _ hr)) hnodup ?_
    rw [Index.restoreRow_of_signal? hs, List.map_append, List.map_singleton]
    refine h.restore (fun b hb => ?_) (hheld s) (hrestore x s)
    obtain ⟨u, hu, heq⟩ := List.mem_map.1 hb
    rw [List.map_append, List.map_append, List.map_singleton, List.nodup_append, List.nodup_append] at hnodup
    exact hnodup.1.2.2 (f u) (List.mem_map_of_mem hu) (f s) List.mem_cons_self (congrArg Prod.fst heq)

/-! ## What calls hold -/

/-- The receipt that is given for a row. -/
def Receipt.IsOf (receipt : Receipt) (r : Row) : Prop :=
  receipt.table = r.table ∧ receipt.position = r.position ∧ receipt.recordId = r.recordId ∧
    receipt.linkId = r.linkId ∧ receipt.digest = r.digest

/-- What a call has reserved and neither made known nor given back, with the receipt of its row once that is stored. -/
def Phase.owned : Phase → Option (Reservation × Option Receipt)
  | .ready e _ _ => e.reservation.map (·, none)
  | .flying e _ _ _ => e.reservation.map (·, none)
  | .tried e r _ _ => e.reservation.map (·, r.toOption)
  | _ => none

/-- Whether the row of a call is stored. -/
def Phase.succeeded : Phase → Bool
  | .tried _ r _ _ => r.isOk
  | .done r => r.isOk
  | _ => false

/-- Whether a call asks for a signal under this dedupe key. -/
def Submission.AsksFor (c : Submission) (key : String) : Prop := ∃ r, c.request = .signal r ∧ r.dedupeKey = key

/-- What becomes an errand without a reservation asks for no signal. -/
theorem Submission.Becomes.not_asksFor {c : Submission} {e : Errand} (h : c.Becomes e) (hres : e.reservation = none)
    (key : String) : ¬ c.AsksFor key := by
  rintro ⟨r, hr, -⟩
  obtain ⟨entry, hentry, he⟩ := h
  rw [hr] at hentry
  cases Request.enters_of_entry hentry with
  | signal _ =>
    cases he
    cases hres

/-- What the call at a place holds. -/
def owner (calls : List Call) (i : ℕ) : Option (Reservation × Option Receipt) := calls[i]?.bind (·.phase.owned)

/-- A call that is done holds nothing. -/
theorem owner_of_done {calls : List Call} (hdone : ∀ c ∈ calls, c.phase.isDone = true) :
    owner calls = fun _ => none := by
  funext i
  unfold owner
  cases hi : calls[i]? with
  | none => rfl
  | some c =>
    have := hdone c (List.mem_of_getElem? hi)
    cases hp : c.phase <;> simp_all [Phase.isDone, Phase.owned]

/-- The dedupe key that the call at a place holds, and whether its row is stored. -/
def keyOwner (calls : List Call) (i : ℕ) : Option (String × Bool) :=
  (owner calls i).map fun o => (o.1.dedupeKey, o.2.isSome)

/-- The identifier that the call at a place holds, and whether its row is stored. -/
def idOwner (calls : List Call) (i : ℕ) : Option (Uuid × Bool) :=
  (owner calls i).map fun o => (o.1.correlationId, o.2.isSome)

/-- A call for a signal under this dedupe key has had its row stored. -/
def Stored (calls : List Call) (key : String) : Prop :=
  ∃ c ∈ calls, c.submission.AsksFor key ∧ c.phase.succeeded = true

section Calls

variable {calls : List Call} {c : Call} {i : ℕ} {p : Phase}

theorem owner_set (hc : calls[i]? = some c) (j : ℕ) :
    owner (calls.set i { c with phase := p }) j = if j = i then p.owned else owner calls j := by
  unfold owner
  rw [List.getElem?_set]
  by_cases hj : j = i
  · subst hj
    simp [(List.getElem?_eq_some_iff.1 hc).1]
  · simp [hj, Ne.symm hj]

theorem owner_self (hc : calls[i]? = some c) : owner calls i = c.phase.owned := by
  rw [owner, hc, Option.bind_some]

/-- A step of one call changes whether its own row is stored, and no other. -/
theorem stored_set (hc : calls[i]? = some c) (key : String) :
    Stored (calls.set i { c with phase := p }) key ↔
      (c.submission.AsksFor key ∧ p.succeeded = true) ∨
        ∃ j d, j ≠ i ∧ calls[j]? = some d ∧ d.submission.AsksFor key ∧ d.phase.succeeded = true := by
  have hi := (List.getElem?_eq_some_iff.1 hc).1
  constructor
  · rintro ⟨d, hd, hasks, hsucc⟩
    obtain ⟨j, hj⟩ := List.mem_iff_getElem?.1 hd
    rw [List.getElem?_set] at hj
    by_cases hij : i = j
    · rw [if_pos hij, if_pos (hij ▸ hi)] at hj
      cases hj
      exact .inl ⟨hasks, hsucc⟩
    · rw [if_neg hij] at hj
      exact .inr ⟨j, d, Ne.symm hij, hj, hasks, hsucc⟩
  · rintro (⟨hasks, hsucc⟩ | ⟨j, d, hne, hj, hasks, hsucc⟩)
    · exact ⟨{ c with phase := p }, List.mem_of_getElem? (List.getElem?_set_self hi), hasks, hsucc⟩
    · exact ⟨d, List.mem_of_getElem? (by rw [List.getElem?_set_ne hne.symm, hj]), hasks, hsucc⟩

theorem stored_iff (hc : calls[i]? = some c) (key : String) :
    Stored calls key ↔ (c.submission.AsksFor key ∧ c.phase.succeeded = true) ∨
      ∃ j d, j ≠ i ∧ calls[j]? = some d ∧ d.submission.AsksFor key ∧ d.phase.succeeded = true := by
  have := stored_set (p := c.phase) hc key
  obtain ⟨hi, rfl⟩ := List.getElem?_eq_some_iff.1 hc
  rwa [show ({ calls[i] with phase := calls[i].phase } : Call) = calls[i] from rfl, List.set_getElem_self hi] at this

theorem stored_congr (hc : calls[i]? = some c) {key : String}
    (h : c.submission.AsksFor key → p.succeeded = c.phase.succeeded) :
    Stored (calls.set i { c with phase := p }) key ↔ Stored calls key := by
  rw [stored_set hc, stored_iff hc]
  refine or_congr_left (and_congr_right fun hasks => ?_)
  rw [h hasks]

theorem keyOwner_set (hc : calls[i]? = some c) (j : ℕ) :
    keyOwner (calls.set i { c with phase := p }) j =
      if j = i then p.owned.map fun o => (o.1.dedupeKey, o.2.isSome) else keyOwner calls j := by
  unfold keyOwner
  rw [owner_set hc]
  split_ifs <;> rfl

theorem idOwner_set (hc : calls[i]? = some c) (j : ℕ) :
    idOwner (calls.set i { c with phase := p }) j =
      if j = i then p.owned.map fun o => (o.1.correlationId, o.2.isSome) else idOwner calls j := by
  unfold idOwner
  rw [owner_set hc]
  split_ifs <;> rfl

theorem keyOwner_self {o : Option (Reservation × Option Receipt)} (hc : calls[i]? = some c) (ho : c.phase.owned = o) :
    keyOwner calls i = o.map fun o => (o.1.dedupeKey, o.2.isSome) := by
  rw [keyOwner, owner_self hc, ho]

theorem idOwner_self {o : Option (Reservation × Option Receipt)} (hc : calls[i]? = some c) (ho : c.phase.owned = o) :
    idOwner calls i = o.map fun o => (o.1.correlationId, o.2.isSome) := by
  rw [idOwner, owner_self hc, ho]

end Calls

/-! ## The invariant -/

/-- What holds of signals at every moment of a session. -/
structure Reserved (x : Facts) (calls : List Call) : Prop where
  readable : ∀ r ∈ x.memory.rows.get .signals, ∃ s, r.signal? = some s
  keys : Registry .held x.index.dedupeKeys.get? (keyOwner calls) (keysOf (recorded (x.memory.rows.get .signals)))
  ids : Registry .held x.index.correlations.get? (idOwner calls) (idsOf (recorded (x.memory.rows.get .signals)))
  row : ∀ i res receipt, owner calls i = some (res, some receipt) →
    ∃ r ∈ x.memory.rows.get .signals, ∃ s, r.signal? = some s ∧ s.dedupeKey = res.dedupeKey ∧
      s.correlationId = res.correlationId ∧ receipt.IsOf r
  accounted : ∀ key, (∃ s ∈ recorded (x.memory.rows.get .signals), s.dedupeKey = key) ↔ Stored calls key

namespace Reserved

variable {x x' : Facts} {calls : List Call} {c : Call} {i : ℕ} {p : Phase}

/-- No rows, nothing known of them, and no calls yet. -/
theorem start (hmemory : x.memory = .empty) (hindex : x.index = .ofMemory .empty) : Reserved x [] := by
  have hrows : x.memory.rows.get .signals = [] := by rw [hmemory]; rfl
  have hrecorded : recorded (x.memory.rows.get .signals) = [] := by rw [hrows]; rfl
  refine ⟨by simp [hrows], ?_, ?_, nofun, fun key => ?_⟩
  · rw [hrecorded, hindex]
    exact keys_empty
  · rw [hrecorded, hindex]
    exact ids_empty
  · simp [hrecorded, Stored]

/-- A step that neither takes, writes, publishes nor gives back. -/
theorem keep (h : Reserved x calls) (hc : calls[i]? = some c) (howned : p.owned = c.phase.owned)
    (hsucc : ∀ key, c.submission.AsksFor key → p.succeeded = c.phase.succeeded)
    (hkeys : x'.index.dedupeKeys = x.index.dedupeKeys) (hids : x'.index.correlations = x.index.correlations)
    (hrows : x'.memory.rows.get .signals = x.memory.rows.get .signals) :
    Reserved x' (calls.set i { c with phase := p }) := by
  have howner : owner (calls.set i { c with phase := p }) = owner calls := by
    funext j
    rw [owner_set hc, howned]
    split_ifs with hj
    · rw [hj, owner_self hc]
    · rfl
  refine ⟨?_, ?_, ?_, ?_, ?_⟩
  · rw [hrows]; exact h.readable
  · rw [hrows, hkeys, show keyOwner _ = keyOwner calls from funext fun j => by rw [keyOwner, howner]; rfl]
    exact h.keys
  · rw [hrows, hids, show idOwner _ = idOwner calls from funext fun j => by rw [idOwner, howner]; rfl]
    exact h.ids
  · rw [hrows, howner]; exact h.row
  · intro key
    rw [hrows, stored_congr hc (hsucc key)]
    exact h.accounted key

/-- A call that holds nothing reserves a key and an identifier. -/
theorem reserve {key : String} {draws : List Uuid} {res : Reservation} {index : Index} (h : Reserved x calls)
    (hc : calls[i]? = some c) (ho : c.phase.owned = none) (hp : p.owned = some (res, none))
    (hsucc : p.succeeded = c.phase.succeeded) (hres : x.index.reserveSignal key draws = .ok (res, index)) :
    Reserved { x with index } (calls.set i { c with phase := p }) := by
  obtain ⟨hkey, -, hfree, hidfree, hindex⟩ := Index.reserveSignal_eq_ok hres
  subst hindex hkey
  refine ⟨h.readable, ?_, ?_, ?_, ?_⟩
  · exact h.keys.take (keyOwner_self hc ho) hfree (fun l => Assoc.get?_set ..)
      fun j => by rw [keyOwner_set hc, hp]; rfl
  · exact h.ids.take (idOwner_self hc ho) hidfree (fun l => Assoc.get?_set ..)
      fun j => by rw [idOwner_set hc, hp]; rfl
  · intro j res' receipt hj
    rw [owner_set hc] at hj
    split_ifs at hj
    · rw [hp] at hj; cases hj
    · exact h.row j res' receipt hj
  · intro key
    rw [stored_congr hc fun _ => hsucc]
    exact h.accounted key

/-- The row of what a call has reserved is stored. -/
theorem write {res : Reservation} {receipt : Receipt} {r : Row} {s : Signal} (h : Reserved x calls)
    (hc : calls[i]? = some c) (ho : c.phase.owned = some (res, none)) (hp : p.owned = some (res, some receipt))
    (hsucc : c.phase.succeeded = false) (hpsucc : p.succeeded = true)
    (hasks : ∀ key, c.submission.AsksFor key ↔ res.dedupeKey = key)
    (hrows : x'.memory.rows.get .signals = x.memory.rows.get .signals ++ [r]) (hindex : x'.index = x.index)
    (hs : r.signal? = some s) (hkey : s.dedupeKey = res.dedupeKey) (hid : s.correlationId = res.correlationId)
    (hreceipt : receipt.IsOf r) : Reserved x' (calls.set i { c with phase := p }) := by
  have hrecorded := recorded_append (x.memory.rows.get .signals) hs
  rw [← hrows] at hrecorded
  refine ⟨?_, ?_, ?_, ?_, ?_⟩
  · intro r' hr'
    rw [hrows] at hr'
    rcases List.mem_append.1 hr' with hr' | hr'
    · exact h.readable r' hr'
    · cases List.mem_singleton.1 hr'
      exact ⟨s, hs⟩
  · rw [hrecorded, hindex, keysOf, List.map_append, List.map_singleton, hkey]
    exact h.keys.write (keyOwner_self hc ho) Claim.noConfusion fun j => by rw [keyOwner_set hc, hp]; rfl
  · rw [hrecorded, hindex, idsOf, List.map_append, List.map_singleton, hid]
    exact h.ids.write (idOwner_self hc ho) Standing.noConfusion fun j => by rw [idOwner_set hc, hp]; rfl
  · intro j res' receipt' hj
    rw [owner_set hc] at hj
    rw [hrows]
    split_ifs at hj
    · rw [hp] at hj
      cases hj
      exact ⟨r, List.mem_append_right _ List.mem_cons_self, s, hs, hkey, hid, hreceipt⟩
    · obtain ⟨r', hr', h'⟩ := h.row j res' receipt' hj
      exact ⟨r', List.mem_append_left _ hr', h'⟩
  · intro key
    -- before the step no row of this call is stored, afterwards one is
    have hold := h.accounted key
    rw [stored_iff hc, hsucc] at hold
    rw [hrecorded, stored_set hc, hpsucc, hasks]
    simp only [List.mem_append, List.mem_singleton, Bool.false_eq_true, and_false, false_or, and_true] at hold ⊢
    rw [← hold]
    constructor
    · rintro ⟨u, hu | rfl, hukey⟩
      · exact .inr ⟨u, hu, hukey⟩
      · exact .inl (hkey.symm.trans hukey)
    · rintro (hkey' | ⟨u, hu, hukey⟩)
      · exact ⟨s, .inr rfl, hkey.trans hkey'⟩
      · exact ⟨u, .inl hu, hukey⟩

/-- What a call has stored becomes known. -/
theorem commit {res : Reservation} {receipt : Receipt} (h : Reserved x calls) (hc : calls[i]? = some c)
    (ho : c.phase.owned = some (res, some receipt)) (hp : p.owned = none) (hsucc : p.succeeded = c.phase.succeeded) :
    Reserved { x with index := x.index.commit res } (calls.set i { c with phase := p }) := by
  obtain ⟨r, hr, s, hs, hkey, hid, -⟩ := h.row i res receipt (by rw [owner_self hc, ho])
  have hmem : s ∈ recorded (x.memory.rows.get .signals) := List.mem_filterMap.2 ⟨r, hr, hs⟩
  refine ⟨h.readable, ?_, ?_, ?_, ?_⟩
  · refine h.keys.publish (a := .committed res.correlationId) (keyOwner_self hc ho) ?_
      (fun l => by rw [Index.commit, Index.dedupeKeys_restore]) fun j => by rw [keyOwner_set hc, hp]; rfl
    exact List.mem_map.2 ⟨s, hmem, by rw [hkey, hid]⟩
  · refine h.ids.publish (a := .committed) (idOwner_self hc ho) ?_
      (fun l => by rw [Index.commit, Index.correlations_restore]) fun j => by rw [idOwner_set hc, hp]; rfl
    exact List.mem_map.2 ⟨s, hmem, by rw [hid]⟩
  · intro j res' receipt' hj
    rw [owner_set hc] at hj
    split_ifs at hj
    · rw [hp] at hj; cases hj
    · exact h.row j res' receipt' hj
  · intro key
    rw [stored_congr hc fun _ => hsucc]
    exact h.accounted key

/-- What a call has not stored is free again. -/
theorem release {res : Reservation} (h : Reserved x calls) (hc : calls[i]? = some c)
    (ho : c.phase.owned = some (res, none)) (hp : p.owned = none) (hsucc : p.succeeded = c.phase.succeeded) :
    Reserved { x with index := x.index.release res } (calls.set i { c with phase := p }) := by
  have hkey : x.index.dedupeKeys.get? res.dedupeKey = some .held :=
    (h.keys.held_iff _).2 ⟨i, false, keyOwner_self hc ho⟩
  have hid : x.index.correlations.get? res.correlationId = some .held :=
    (h.ids.held_iff _).2 ⟨i, false, idOwner_self hc ho⟩
  refine ⟨h.readable, ?_, ?_, ?_, ?_⟩
  · refine h.keys.release (keyOwner_self hc ho) (fun l => ?_) fun j => by rw [keyOwner_set hc, hp]; rfl
    rw [Index.dedupeKeys_release]
    exact if_congr (and_iff_left_of_imp fun hl => hl ▸ hkey) rfl rfl
  · refine h.ids.release (idOwner_self hc ho) (fun l => ?_) fun j => by rw [idOwner_set hc, hp]; rfl
    rw [Index.correlations_release]
    exact if_congr (and_iff_left_of_imp fun hl => hl ▸ hid) rfl rfl
  · intro j res' receipt' hj
    rw [owner_set hc] at hj
    split_ifs at hj
    · rw [hp] at hj; cases hj
    · exact h.row j res' receipt' hj
  · intro key
    rw [stored_congr hc fun _ => hsucc]
    exact h.accounted key

/-- The row of an errand records the signal of its body. -/
theorem signal?_follow {before : Chain.Tail} {now : Instant} {recordId : Uuid} {body : Body} {s : Signal}
    (hs : body.Storable) (hbody : body = .signal s) :
    (Engine.follow before now recordId body).row.signal? = some s := by
  subst hbody
  rw [Row.signal?, Engine.content_follow, Envelope.decode_encode hs]
  rfl

/-- The row that is stored is that of the call, and a signal only if the call has reserved its names. -/
theorem store {e : Errand} {st : Stamp} {left attempts : ℕ} (h : Reserved x calls) (hchained : Chained x calls)
    (hc : calls[i]? = some c) (hphase : c.phase = .flying e st left attempts) :
    Reserved { x with engine := x.engine.settle st true, memory := x.memory.push st.row, faults := x.faults.tail }
      (calls.set i { c with phase := .tried e (.ok st.receipt) left attempts }) := by
  obtain ⟨-, now, hst⟩ := hchained.flight i e st ⟨c, left, attempts, hc, hphase⟩
  have hbecomes := hchained.becomes hc hphase
  have htable : st.row.table = e.body.table := by rw [hst, Engine.table_follow]
  cases hres : e.reservation with
  | none =>
    have hne := hbecomes.table_ne hres
    refine h.keep hc (by simp [Phase.owned, hphase, hres]) (fun key hasks => ?_) rfl rfl ?_
    · exact absurd hasks (hbecomes.not_asksFor hres key)
    · rw [Memory.rows_push, htable, if_neg hne.symm]
  | some res =>
    obtain ⟨r, s, hr, hrkey, hbody, hkey, hid⟩ := hbecomes.reservation hres
    have howned : c.phase.owned = some (res, none) := by rw [hphase, Phase.owned, hres]; rfl
    have hstored : (Phase.tried e (.ok st.receipt) left attempts).owned = some (res, some st.receipt) := by
      rw [Phase.owned, hres]; rfl
    have hasks (key : String) : c.submission.AsksFor key ↔ res.dedupeKey = key := by
      constructor
      · rintro ⟨r', hr', rfl⟩
        rw [hr] at hr'
        cases hr'
        exact hrkey.symm
      · rintro rfl
        exact ⟨r, hr, hrkey⟩
    have hsignal : st.row.signal? = some s := by
      rw [hst]
      exact signal?_follow hbecomes.storable hbody
    refine h.write hc howned hstored (by rw [hphase]; rfl) rfl hasks ?_ rfl hsignal hkey hid ⟨rfl, rfl, rfl, rfl, rfl⟩
    rw [Memory.rows_push, if_pos (by rw [htable, hbody]; rfl)]

/-- Every step of a call keeps the invariant. -/
theorem step (h : Reserved x calls) (hchained : Chained x calls) (hc : calls[i]? = some c)
    (hstep : Phase.Step c.submission c.phase x p x') : Reserved x' (calls.set i { c with phase := p }) := by
  generalize hq : c.phase = q at hstep
  cases hstep with
  | reserved hres => exact h.reserve hc (by rw [hq]; rfl) rfl (by rw [hq]; rfl) hres
  | stored _ => exact h.store hchained hc hq
  | @committed _ e res receipt left attempts hres =>
    have howned : c.phase.owned = some (res, some receipt) := by rw [hq, Phase.owned, hres]; rfl
    exact h.commit hc howned rfl (by rw [hq]; rfl)
  | @released _ e res f left attempts hres =>
    have howned : c.phase.owned = some (res, none) := by rw [hq, Phase.owned, hres]; rfl
    exact h.release hc howned rfl (by rw [hq]; rfl)
  -- what has no reservation owns nothing before the step and after it
  | engaged _ hres _ | again hres _ | concluded hres _ =>
    exact h.keep hc (by simp [hq, Phase.owned, hres]) (fun _ _ => by rw [hq]; rfl) rfl rfl rfl
  | registered hres _ =>
    exact h.keep hc (by simp [hq, Phase.owned, hres]) (fun _ _ => by rw [hq]; rfl)
      Index.dedupeKeys_registerExecution Index.correlations_registerExecution rfl
  | vetted _ | refused _ | unreserved _ | unengaged _ _ | stamped _ | contended _ | lost _ =>
    exact h.keep hc (by rw [hq]; rfl) (fun _ _ => by rw [hq]; rfl) rfl rfl rfl
  | idle => exact h.keep hc (by rw [hq]) (fun _ _ => by rw [hq]) rfl rfl rfl

/-- A call that is made holds nothing. -/
theorem call (h : Reserved x calls) (sub : Submission) : Reserved x (calls ++ [⟨sub, .asked⟩]) := by
  have howner : owner (calls ++ [⟨sub, .asked⟩]) = owner calls := by
    funext j
    unfold owner
    rcases lt_trichotomy j calls.length with hj | rfl | hj
    · rw [List.getElem?_append_left hj]
    · simp [Phase.owned]
    · rw [List.getElem?_eq_none (by simp; omega), List.getElem?_eq_none hj.le]
  refine ⟨h.readable, ?_, ?_, ?_, ?_⟩
  · rw [show keyOwner _ = keyOwner calls from funext fun j => by rw [keyOwner, howner]; rfl]
    exact h.keys
  · rw [show idOwner _ = idOwner calls from funext fun j => by rw [idOwner, howner]; rfl]
    exact h.ids
  · rw [howner]
    exact h.row
  · intro key
    rw [h.accounted]
    simp [Stored, or_and_right, exists_or, Phase.succeeded]

/-- What is known of the rows is all that an index knows that is made of them. -/
theorem reopen (h : Reserved x calls) (hdone : ∀ c ∈ calls, c.phase.isDone = true)
    (hmemory : x'.memory = x.memory) (hindex : x'.index = .ofMemory x.memory) : Reserved x' calls := by
  have hnone := owner_of_done hdone
  have hkeyOwner : keyOwner calls = fun _ => none := funext fun j => by rw [keyOwner, hnone]; rfl
  have hidOwner : idOwner calls = fun _ => none := funext fun j => by rw [idOwner, hnone]; rfl
  refine ⟨by rw [hmemory]; exact h.readable, ?_, ?_, ?_, by rw [hmemory]; exact h.accounted⟩
  · rw [hmemory, hindex, hkeyOwner, Index.ofMemory, Index.dedupeKeys_registerRows]
    refine Registry.restored (fun x => x.dedupeKeys.get?) Signal.dedupeKey (fun s => .committed s.correlationId)
      (fun _ => Claim.noConfusion) (fun x s k => Index.dedupeKeys_restore) h.readable ?_ keys_empty
    exact map_fst_keysOf _ ▸ h.keys.nodup
  · rw [hmemory, hindex, hidOwner, Index.ofMemory, Index.correlations_registerRows]
    refine Registry.restored (fun x => x.correlations.get?) Signal.correlationId (fun _ => .committed)
      (fun _ => Standing.noConfusion) (fun x s k => Index.correlations_restore) h.readable ?_ ids_empty
    exact map_fst_idsOf _ ▸ h.ids.nodup
  · rw [hnone]
    exact nofun

/-- Every move keeps the invariant. -/
theorem move {calls' : List Call} (h : Reserved x calls) (hchained : Chained x calls)
    (hmove : Move x calls x' calls') : Reserved x' calls' := by
  cases hmove with
  | call c => exact h.call c
  | step hc hstep => exact h.step hchained hc hstep
  | clock now => exact ⟨h.readable, h.keys, h.ids, h.row, h.accounted⟩
  | held t held _ => exact ⟨h.readable, h.keys, h.ids, h.row, h.accounted⟩
  | reopened _ _ hdone => exact h.reopen hdone rfl rfl

end Reserved

end TradeLedger

/-
Signals are recorded once. However the steps of calls interleave, and whichever appends fail: no two
rows share a dedupe key or an identifier; under the key of every row stands its identifier, or it is
held by the one call that has stored the row; a call is refused as a duplicate exactly if something
stands under its key where it would reserve it; and once every call is done, nothing is held, and the
key of a signal leads to its row, or to nothing if every call for it failed.
-/
import TradeLedger.Proofs.Session.Reserved

namespace TradeLedger

/-! ## Refusals -/

/-- The store itself has answered that a signal is a duplicate. -/
def Phase.Told (key : String) (p : Phase) : Prop :=
  ∃ e left attempts, p = .tried e (.error (.duplicateSignal key)) left attempts

/-- A call for a signal under this key is about to reserve it. -/
def Call.Reserves (key : String) (c : Call) : Prop := c.submission.AsksFor key ∧ ∃ entry, c.phase = .vetted entry

/-- The entry of a request for a signal is that of a signal, under the same key. -/
theorem Submission.AsksFor.entry {c : Submission} {key : String} {entry : Entry} (h : c.AsksFor key)
    (hentry : c.request.entry = .ok entry) : ∃ signal, entry = .signal key signal := by
  obtain ⟨r, hr, rfl⟩ := h
  rw [hr] at hentry
  cases Request.enters_of_entry hentry with
  | signal _ => exact ⟨_, rfl⟩

/-- At its reserve step a call is refused as a duplicate exactly if something stands under its key. -/
theorem Phase.Step.duplicate_of_reserves {c : Call} {p' : Phase} {x x' : Facts} {key : String}
    (h : Step c.submission c.phase x p' x') (hfrom : c.phase.From c.submission) (hc : c.Reserves key) :
    p' = .done (.error (.duplicateSignal key)) ↔ (x.index.dedupeKeys.get? key).isSome := by
  obtain ⟨hasks, entry, hq⟩ := hc
  rw [hq] at h hfrom
  obtain ⟨signal, rfl⟩ := hasks.entry hfrom
  rw [← @Index.reserveSignal_duplicate_iff x.index key c.submission.draws.correlations]
  cases h with
  | engaged hengages hres _ => cases hengages; cases hres
  | reserved hres => simp [hres]
  | unreserved hres => simp [hres]
  | unengaged hne _ => exact absurd rfl (hne key signal)

/-- Any other step ends a call as a duplicate only if the store has answered so. -/
theorem Phase.Step.duplicate_of_not_reserves {c : Call} {p' : Phase} {x x' : Facts} {key : String}
    (h : Step c.submission c.phase x p' x') (hfrom : c.phase.From c.submission) (hc : ¬ c.Reserves key)
    (hdone : c.phase.isDone = false) : p' = .done (.error (.duplicateSignal key)) ↔ c.phase.Told key := by
  -- apart from reserving, a call fails for causes of its own or with what the store has answered
  unfold Call.Reserves at hc
  generalize hq : c.phase = q at h hdone hfrom hc ⊢
  cases h with
  | vetted _ | engaged _ _ _ | reserved _ | stamped _ | contended _ | stored _ | lost _ | registered _ _ | committed _ =>
    simp [Told]
  | refused hf =>
    refine iff_of_false ?_ (by simp [Told])
    rintro ⟨⟩
    rcases hf with hf | ⟨action, hf⟩ <;> cases hf
  | @unreserved _ dedupeKey signal f hres =>
    refine iff_of_false ?_ (by simp [Told])
    rintro ⟨⟩
    rcases Index.reserveSignal_eq_error hres with ⟨hkey, -⟩ | ⟨hkey, -⟩
    · cases hkey
      obtain ⟨r, hr, hrkey, -⟩ := Request.entry_eq_signal hfrom
      exact hc ⟨⟨r, hr, hrkey⟩, _, rfl⟩
    · cases hkey
  | unengaged hne hcode =>
    refine iff_of_false ?_ (by simp [Told])
    rintro ⟨⟩
    cases hcode
  | again _ hf =>
    refine iff_of_false (by simp) ?_
    rintro ⟨e, left, attempts, ⟨⟩⟩
    cases hf
  | concluded _ _ => simp [Told]
  | released _ => simp [Told]
  | idle => cases hdone

/-- The store has not answered that a signal is a duplicate, and will not. -/
structure Silent (x : Facts) (calls : List Call) : Prop where
  faults : ∀ key, some (.duplicateSignal key) ∉ x.faults
  told : ∀ c ∈ calls, ∀ key, ¬ c.phase.Told key

namespace Silent

variable {x x' : Facts} {calls calls' : List Call} {c : Call} {i : ℕ} {p : Phase}

theorem start (h : ∀ key, some (.duplicateSignal key) ∉ x.faults) : Silent x [] :=
  ⟨h, fun _ hc => by cases hc⟩

theorem step (h : Silent x calls) (hstep : Phase.Step c.submission c.phase x p x') :
    Silent x' (calls.set i { c with phase := p }) := by
  have hset (hp : ∀ key, ¬ p.Told key) : ∀ d ∈ calls.set i { c with phase := p }, ∀ key, ¬ d.phase.Told key := by
    intro d hd
    rcases List.mem_or_eq_of_mem_set hd with hd | rfl
    · exact h.told d hd
    · exact hp
  have hrest (key : String) (hmem : some (.duplicateSignal key) ∈ x.faults.tail) : False :=
    h.faults key (List.mem_of_mem_tail hmem)
  generalize c.phase = q at hstep
  cases hstep with
  | lost hf =>
    refine ⟨hrest, hset ?_⟩
    rintro key ⟨e, left, attempts, ⟨⟩⟩
    rcases hf with hf | hf
    · exact h.faults key hf
    · exact hf key rfl
  | stored _ => exact ⟨hrest, hset (by simp [Phase.Told])⟩
  | _ => exact ⟨h.faults, hset (by simp [Phase.Told])⟩

theorem move (h : Silent x calls) (hmove : Move x calls x' calls') : Silent x' calls' := by
  cases hmove with
  | call c =>
    refine ⟨h.faults, fun d hd => ?_⟩
    rcases List.mem_append.1 hd with hd | hd
    · exact h.told d hd
    · cases List.mem_singleton.1 hd
      simp [Phase.Told]
  | step _ hstep => exact h.step hstep
  | clock _ | held _ _ _ | reopened _ _ _ => exact ⟨h.faults, h.told⟩

end Silent

/-! ## What stands under keys -/

/-- No call holds this dedupe key. -/
def Unheld (calls : List Call) (key : String) : Prop :=
  ∀ i res receipt, owner calls i = some (res, receipt) → res.dedupeKey ≠ key

/-- No call holds this identifier. -/
def UnheldId (calls : List Call) (id : Uuid) : Prop :=
  ∀ i res receipt, owner calls i = some (res, receipt) → res.correlationId ≠ id

section Unheld

variable {calls : List Call}

theorem Unheld.keyOwner_ne {key : String} (h : Unheld calls key) (i : ℕ) (b : Bool) :
    keyOwner calls i ≠ some (key, b) := by
  intro hi
  obtain ⟨⟨res, receipt⟩, ho, heq⟩ := Option.map_eq_some_iff.1 hi
  exact h i res receipt ho (congrArg Prod.fst heq)

theorem unheldId_iff {id : Uuid} : UnheldId calls id ↔ ∀ i b, idOwner calls i ≠ some (id, b) := by
  constructor
  · intro h i b hi
    obtain ⟨⟨res, receipt⟩, ho, heq⟩ := Option.map_eq_some_iff.1 hi
    exact h i res receipt ho (congrArg Prod.fst heq)
  · intro h i res receipt ho hid
    exact h i receipt.isSome (by rw [idOwner, ho, ← hid]; rfl)

variable (hdone : ∀ c ∈ calls, c.phase.isDone = true)

include hdone

/-- Once every call is done, none holds anything. -/
theorem unheld_of_done (key : String) : Unheld calls key := by
  intro i res receipt ho
  rw [owner_of_done hdone] at ho
  cases ho

theorem unheldId_of_done (id : Uuid) : UnheldId calls id := by
  intro i res receipt ho
  rw [owner_of_done hdone] at ho
  cases ho

end Unheld

/-- One call alone holds the dedupe key and the identifier of this signal, and has stored this row. -/
def HeldFor (calls : List Call) (g : Signal) (r : Row) : Prop :=
  ∃ i receipt, owner calls i = some (⟨g.dedupeKey, g.correlationId⟩, some receipt) ∧ receipt.IsOf r ∧
    ∀ j res receipt, owner calls j = some (res, receipt) → res.dedupeKey = g.dedupeKey → j = i

namespace Reserved

variable {x : Facts} {calls : List Call}

/-- The key of a row leads to its identifier, or is held by the one call that has stored the row. -/
theorem standing (h : Reserved x calls) {r : Row} {g : Signal} (hr : r ∈ x.memory.rows.get .signals)
    (hg : r.signal? = some g) :
    (x.index.dedupeKeys.get? g.dedupeKey = some (.committed g.correlationId) ∧ Unheld calls g.dedupeKey) ∨
      (x.index.dedupeKeys.get? g.dedupeKey = some .held ∧ HeldFor calls g r) := by
  have hkeyOwner {i : ℕ} {res : Reservation} {receipt : Option Receipt} (hi : owner calls i = some (res, receipt)) :
      keyOwner calls i = some (res.dedupeKey, receipt.isSome) := by
    rw [keyOwner, hi]
    rfl
  have hmem : (g.dedupeKey, Claim.committed g.correlationId) ∈ keysOf (recorded (x.memory.rows.get .signals)) :=
    mem_keysOf.2 ⟨g, List.mem_filterMap.2 ⟨r, hr, hg⟩, rfl, rfl⟩
  rcases h.keys.standing hmem with ⟨hget, hnone⟩ | ⟨hget, i, hi, halone⟩
  · refine .inl ⟨hget, fun i res receipt hi hkey => hnone i receipt.isSome ?_⟩
    rw [hkeyOwner hi, hkey]
  · refine .inr ⟨hget, i, ?_⟩
    obtain ⟨⟨res, receipt⟩, ho, heq⟩ := Option.map_eq_some_iff.1 hi
    obtain ⟨hkey, hsome⟩ := Prod.mk.inj heq
    obtain ⟨receipt, rfl⟩ := Option.isSome_iff_exists.1 hsome
    obtain ⟨r', hr', g', hg', hkey', hid', hreceipt⟩ := h.row i res receipt ho
    -- the row that the call has stored has the same key, so it is this one
    obtain rfl := row_unique (map_fst_keysOf _ ▸ h.keys.nodup) hr hr' hg hg' (hkey.symm.trans hkey'.symm)
    cases hg.symm.trans hg'
    refine ⟨receipt, ?_, hreceipt, fun j res' receipt' hj hj' => halone j receipt'.isSome ?_⟩
    · rw [ho, hkey', hid']
    · rw [hkeyOwner hj, hj']

/-- Once every call is done, nothing is held. -/
theorem not_held (h : Reserved x calls) (hdone : ∀ c ∈ calls, c.phase.isDone = true) :
    (∀ key, x.index.dedupeKeys.get? key ≠ some .held) ∧ ∀ id, x.index.correlations.get? id ≠ some .held := by
  have hnone := owner_of_done hdone
  refine ⟨fun key hkey => ?_, fun id hid => ?_⟩
  · obtain ⟨i, b, hi⟩ := (h.keys.held_iff key).1 hkey
    rw [keyOwner, hnone] at hi
    cases hi
  · obtain ⟨i, b, hi⟩ := (h.ids.held_iff id).1 hid
    rw [idOwner, hnone] at hi
    cases hi

/-- Once every call is done, a key leads to the identifier of its row. -/
theorem lookup_eq_some_iff (h : Reserved x calls) (hdone : ∀ c ∈ calls, c.phase.isDone = true) (key : String)
    (id : Uuid) : x.index.lookup key = some id ↔
      ∃ g ∈ recorded (x.memory.rows.get .signals), g.dedupeKey = key ∧ g.correlationId = id := by
  rw [Index.lookup_eq_some_iff, h.keys.known_iff key _ Claim.noConfusion,
    and_iff_left (unheld_of_done hdone key).keyOwner_ne, mem_keysOf]
  simp only [Claim.committed.injEq]

/-- Once every call is done, a key leads nowhere if every call for it failed. -/
theorem lookup_eq_none_iff (h : Reserved x calls) (hdone : ∀ c ∈ calls, c.phase.isDone = true) (key : String) :
    x.index.lookup key = none ↔ ∀ c ∈ calls, c.submission.AsksFor key → ∃ f, c.phase = .done (.error f) := by
  have hstored : x.index.lookup key = none ↔ ¬ Stored calls key := by
    rw [← h.accounted key, Option.eq_none_iff_forall_ne_some]
    simp only [ne_eq, h.lookup_eq_some_iff hdone]
    constructor
    · rintro hno ⟨g, hg, hkey⟩
      exact hno g.correlationId ⟨g, hg, hkey, rfl⟩
    · rintro hno id ⟨g, hg, hkey, -⟩
      exact hno ⟨g, hg, hkey⟩
  have hfailed {c : Call} (hc : c ∈ calls) : c.phase.succeeded = true ↔ ¬ ∃ f, c.phase = .done (.error f) := by
    have := hdone c hc
    generalize c.phase = p at this ⊢
    cases p with
    | done r => cases r <;> simp [Phase.succeeded, Except.isOk, Except.toBool]
    | _ => cases this
  rw [hstored]
  constructor
  · intro hno c hc hasks
    by_contra hf
    exact hno ⟨c, hc, hasks, (hfailed hc).2 hf⟩
  · rintro hall ⟨c, hc, hasks, hsucceeded⟩
    exact (hfailed hc).1 hsucceeded (hall c hc hasks)

end Reserved

/-! ## Signals of a session -/

namespace Session

variable {s : Session Flaky}

/-- What stands under a dedupe key. -/
def standing (s : Session Flaky) (key : String) : Option Claim := s.running.ledger.index.dedupeKeys.get? key

/-- What a call was answered with, once it is done. -/
def answer (s : Session Flaky) (i : ℕ) : Option (Except Failure Receipt) :=
  s.calls[i]?.bind fun c =>
    match c.phase with
    | .done r => some r
    | _ => none

/-- Signals are recorded once. -/
structure Idempotent (faults : List (Option Failure)) (s : Session Flaky) : Prop where
  readable : ∀ r ∈ s.rows .signals, ∃ g, r.signal? = some g
  keys : ((recorded (s.rows .signals)).map Signal.dedupeKey).Nodup
  ids : ((recorded (s.rows .signals)).map Signal.correlationId).Nodup
  /-- The key of a row leads to its identifier, or is held by the one call that has stored the row. -/
  standing : ∀ r ∈ s.rows .signals, ∀ g, r.signal? = some g →
    (s.standing g.dedupeKey = some (.committed g.correlationId) ∧ Unheld s.calls g.dedupeKey) ∨
      (s.standing g.dedupeKey = some .held ∧ HeldFor s.calls g r)
  /-- A call is refused as a duplicate exactly if something stands under its key where it reserves it. -/
  refused : ∀ i c key, s.calls[i]? = some c → c.Reserves key →
    ((s.advance i).answer i = some (.error (.duplicateSignal key)) ↔ (s.standing key).isSome)
  /-- Nowhere else is it refused as one, unless the store is made to answer so. -/
  unrefused : (∀ key, some (.duplicateSignal key) ∉ faults) →
    ∀ i c key, s.calls[i]? = some c → c.phase.isDone = false → ¬ c.Reserves key →
      (s.advance i).answer i ≠ some (.error (.duplicateSignal key))
  /-- Once every call is done, nothing is held. -/
  settled : s.quiet = true → (∀ key, s.standing key ≠ some .held) ∧
    ∀ id, s.running.ledger.index.correlations.get? id ≠ some .held
  /-- Then a key leads to the identifier of its row. -/
  found : s.quiet = true → ∀ key id, s.running.ledger.index.lookup key = some id ↔
    ∃ r ∈ s.rows .signals, ∃ g, r.signal? = some g ∧ g.dedupeKey = key ∧ g.correlationId = id
  /-- Then a key leads nowhere if every call for it failed. -/
  missed : s.quiet = true → ∀ key, s.running.ledger.index.lookup key = none ↔
    ∀ c ∈ s.calls, c.submission.AsksFor key → ∃ f, c.phase = .done (.error f)

/-- What a step is answered with is what the call then is. -/
theorem answer_advance {i : ℕ} {c : Call} (hc : s.calls[i]? = some c) (r : Except Failure Receipt) :
    (s.advance i).answer i = some r ↔ (c.phase.advance c.submission s.running).1 = .done r := by
  have hi := (List.getElem?_eq_some_iff.1 hc).1
  unfold answer advance
  simp only [hc, List.getElem?_set_self hi, Option.bind_some]
  cases (c.phase.advance c.submission s.running).1 <;> simp

theorem idempotent_of_reserved {faults : List (Option Failure)} (hchained : Chained s.running.facts s.calls)
    (h : Reserved s.running.facts s.calls)
    (hsilent : (∀ key, some (.duplicateSignal key) ∉ faults) → Silent s.running.facts s.calls) :
    s.Idempotent faults where
  readable := h.readable
  keys := map_fst_keysOf _ ▸ h.keys.nodup
  ids := map_fst_idsOf _ ▸ h.ids.nodup
  standing r hr g hg := h.standing hr hg
  refused i c key hc hreserves := by
    rw [answer_advance hc]
    exact (Phase.step_advance c.submission s.running c.phase).duplicate_of_reserves
      (hchained.origin c (List.mem_of_getElem? hc)) hreserves
  unrefused hfaults i c key hc hdone hreserves := by
    rw [ne_eq, answer_advance hc, (Phase.step_advance c.submission s.running c.phase).duplicate_of_not_reserves
      (hchained.origin c (List.mem_of_getElem? hc)) hreserves hdone]
    exact (hsilent hfaults).told c (List.mem_of_getElem? hc) key
  settled hq := h.not_held (List.all_eq_true.1 hq)
  found hq key id := (h.lookup_eq_some_iff (List.all_eq_true.1 hq) key id).trans exists_mem_recorded
  missed hq key := h.lookup_eq_none_iff (List.all_eq_true.1 hq) key

/-- A ledger opens over an empty store, and from then on, whatever calls are made, in whatever order
they take their steps, whichever appends fail and whichever identifiers are drawn again: signals are
recorded once. -/
theorem signals_idempotent (settings : Settings) (sink : Sink) (faults : List (Option Failure)) (now : Instant) :
    ∃ w : Running Flaky,
      Ledger.opened settings sink { store := ⟨.empty, faults⟩, now, journal := [], alerts := [] } =
        (.ok w.ledger, w.site) ∧
      ∀ events, ((⟨w, []⟩ : Session Flaky).run events).Idempotent faults := by
  have hlinked (t : Table) : Chain.Linked t (Memory.empty.rows.get t) ((PerTable.ofFn Chain.Tail.empty).get t) := by
    rw [PerTable.get_ofFn, Memory.empty, PerTable.get_ofFn]
    exact .nil
  let site : Site Flaky := { store := ⟨.empty, faults⟩, now, journal := [], alerts := [] }
  obtain ⟨w, hopened, hw⟩ := Ledger.opened_of_linked (show ∀ t, Chain.Linked t (site.store.memory.rows.get t) _
    from hlinked) settings sink
  have hchained : Chained w.facts [] := by
    rw [hw]
    exact .start hlinked rfl
  have hreserved : Reserved w.facts [] := by
    rw [hw]
    exact .start rfl rfl
  have hsilent (h : ∀ key, some (.duplicateSignal key) ∉ faults) : Silent w.facts [] := by
    rw [hw]
    exact .start h
  refine ⟨w, hopened, fun events => ?_⟩
  obtain ⟨hchained', hreaches⟩ := run_chained (s := ⟨w, []⟩) hchained events
  refine idempotent_of_reserved hchained' ?_ fun h => hreaches.keeps (fun hmove h => h.move hmove) (hsilent h)
  -- what is reserved is kept as long as the chains hold
  exact (hreaches.keeps (P := fun x calls => Chained x calls ∧ Reserved x calls)
    (fun hmove h => ⟨h.1.move hmove, h.2.move h.1 hmove⟩) ⟨hchained, hreserved⟩).2

/-- A call that is made twice below. -/
def alert : Submission where
  caller := ⟨"gateway", .ingestion⟩
  draws := ⟨Uuid.made 1 1, [Uuid.made 2 1]⟩
  request := .signal {
    dedupeKey := "alert-1"
    symbol := "BTCUSD"
    side := .buy
    price := none
    quantity := .text "0.5"
    request := []
    sourceAddress := none
    authenticated := true }
  fits := by constructor <;> simp [Text.Storable] <;> decide

-- the second call reserves when the row of the first is stored and not yet known
example :
    (run ⟨{ ledger := .fresh {} .log, site := { store := ⟨.empty, []⟩, now := 0, journal := [], alerts := [] } }, []⟩
      [.call alert, .call alert, .advance 1, .advance 0, .advance 0, .advance 0, .advance 0, .advance 1]).answer 1 =
      some (.error (.duplicateSignal "alert-1")) := by
  rfl

end Session

def halfCoin : Decimal := ⟨false, 50000000, 8, by decide, by decide⟩

/-- The signal of that call, under whichever identifier. -/
def alerted (id : ℕ) : Signal := ⟨"alert-1", Uuid.made 2 id, "BTCUSD", .buy, none, halfCoin, [], none, true⟩

end TradeLedger

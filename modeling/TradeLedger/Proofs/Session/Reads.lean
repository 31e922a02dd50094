/-
What is read is what the rows say. A reader goes by a link through positions to rows and takes what
their contents decode to; what it is held against here is every record of a table, in the order of
the chain, sifted by what the bodies say. The two agree at every moment of a session: the index of
links names the positions of the rows with a link, each row stands at its position, and its link is
that of its body.

A signal is found by its dedupe key once the call for it is done; as long as a call holds the key,
nothing is found by it.
-/
import TradeLedger.Proofs.Chain.Binding
import TradeLedger.Proofs.Session.Reopening
import TradeLedger.Proofs.Store.Links

namespace TradeLedger

/-! ## What records are about -/

namespace Body

/-- The signal that a body is, or is about. -/
def signalId? : Body → Option Uuid
  | .signal s => some s.correlationId
  | .deliberation d => some d.correlationId
  | .execution e => some e.correlationId
  | .event _ => none

/-- The execution that an event is about. -/
def executionId? : Body → Option Uuid
  | .event e => some e.executionId
  | _ => none

/-- What a signal was sent under. -/
def dedupeKey? : Body → Option String
  | .signal s => some s.dedupeKey
  | _ => none

theorem signalId?_eq_some_iff {b : Body} (h : b.table ≠ .orderEvents) (id : Uuid) :
    b.signalId? = some id ↔ b.linkId = id := by
  cases b with
  | event e => exact absurd rfl h
  | signal _ | deliberation _ | execution _ => exact Option.some_inj

theorem executionId?_eq_some_iff {b : Body} (h : b.table = .orderEvents) (id : Uuid) :
    b.executionId? = some id ↔ b.linkId = id := by
  cases b with
  | event e => exact Option.some_inj
  | signal _ | deliberation _ | execution _ => cases h

theorem eq_signal_of_table {b : Body} (h : b.table = .signals) : ∃ s, b = .signal s := by
  cases b with
  | signal s => exact ⟨s, rfl⟩
  | deliberation _ | execution _ | event _ => cases h

end Body

/-- The record of a row, if its content reads. -/
def Row.record? (r : Row) : Option Record := r.record.toOption

theorem Row.record?_eq_some_iff {r : Row} {c : Record} : r.record? = some c ↔ r.record = .ok c := by
  unfold record?
  cases r.record <;> simp [Except.toOption]

theorem Row.signal?_of_record {r : Row} {c : Record} {s : Signal} (h : r.record = .ok c) (hs : c.body = .signal s) :
    r.signal? = some s := by
  obtain ⟨e, he, hc⟩ := Codec.bind_eq_ok h
  cases hc
  cases e
  cases hs
  rw [signal?, he]

/-- The records of rows, in their order. -/
def recordsOf (rows : List Row) : List Record := rows.filterMap Row.record?

/-- The row reads as what belongs into this table, and links to what its body links to. -/
def Row.Legible (t : Table) (r : Row) : Prop :=
  ∃ c, r.record = .ok c ∧ c.body.table = t ∧ c.body.linkId = r.linkId

section Records

variable {t : Table} {r : Row} {rows : List Row}

theorem recordsOf_cons {c : Record} (h : r.record = .ok c) : recordsOf (r :: rows) = c :: recordsOf rows :=
  List.filterMap_cons_some (Row.record?_eq_some_iff.2 h)

theorem table_of_mem_recordsOf (h : ∀ r ∈ rows, r.Legible t) {c : Record} (hc : c ∈ recordsOf rows) : c.body.table = t := by
  obtain ⟨r, hr, hrc⟩ := List.mem_filterMap.1 hc
  obtain ⟨c', hc', ht, -⟩ := h r hr
  rw [Row.record?_eq_some_iff, hc'] at hrc
  cases hrc
  exact ht

/-- No row is missing among the records. -/
theorem map_record (h : ∀ r ∈ rows, r.Legible t) : rows.map Row.record = (recordsOf rows).map .ok := by
  induction rows with
  | nil => rfl
  | cons r rows ih =>
    obtain ⟨c, hc, -⟩ := h r List.mem_cons_self
    rw [List.map_cons, recordsOf_cons hc, List.map_cons, hc, ih (List.forall_mem_of_forall_mem_cons h)]

/-- The record in a place is that of the row in it. -/
theorem getElem?_recordsOf (h : ∀ r ∈ rows, r.Legible t) (n : ℕ) :
    rows[n]?.map Row.record = (recordsOf rows)[n]?.map .ok := by
  rw [← List.getElem?_map, map_record h, List.getElem?_map]

/-- To sift the rows by their links is to sift the records by those of their bodies. -/
theorem recordsOf_filter (h : ∀ r ∈ rows, r.Legible t) (link : Uuid) :
    recordsOf (rows.filter (·.linkId = link)) = (recordsOf rows).filter (·.body.linkId = link) := by
  induction rows with
  | nil => rfl
  | cons r rows ih =>
    obtain ⟨c, hc, -, hlink⟩ := h r List.mem_cons_self
    replace ih := ih (List.forall_mem_of_forall_mem_cons h)
    rw [recordsOf_cons hc]
    by_cases heq : r.linkId = link
    · rw [List.filter_cons_of_pos (by simpa using heq), List.filter_cons_of_pos (by simpa [hlink] using heq),
        recordsOf_cons hc, ih]
    · rw [List.filter_cons_of_neg (by simpa using heq), List.filter_cons_of_neg (by simpa [hlink] using heq), ih]

/-- The records of signals say of the signals what these say. -/
theorem map_recordsOf {α : Type} {f : Body → Option α} {g : Signal → α} (hfg : ∀ s, f (.signal s) = some (g s))
    (h : ∀ r ∈ rows, r.Legible .signals) :
    (recordsOf rows).map (fun c => f c.body) = ((recorded rows).map g).map some := by
  induction rows with
  | nil => rfl
  | cons r rows ih =>
    obtain ⟨c, hc, htable, -⟩ := h r List.mem_cons_self
    obtain ⟨s, hs⟩ := Body.eq_signal_of_table htable
    rw [recordsOf_cons hc, recorded, List.filterMap_cons_some (Row.signal?_of_record hc hs), List.map_cons, List.map_cons,
      List.map_cons, hs, hfg, ih (List.forall_mem_of_forall_mem_cons h), recorded]

/-- The signals of rows are those of their records. -/
theorem mem_recorded_iff (h : ∀ r ∈ rows, r.Legible .signals) {s : Signal} :
    s ∈ recorded rows ↔ ∃ c ∈ recordsOf rows, c.body = .signal s := by
  have hrow {r : Row} (hr : r ∈ rows) : ∃ c u, r.record = .ok c ∧ c.body = .signal u ∧ r.signal? = some u := by
    obtain ⟨c, hc, htable, -⟩ := h r hr
    obtain ⟨u, hu⟩ := Body.eq_signal_of_table htable
    exact ⟨c, u, hc, hu, Row.signal?_of_record hc hu⟩
  constructor
  · intro hs
    obtain ⟨r, hr, hrs⟩ := List.mem_filterMap.1 hs
    obtain ⟨c, u, hc, hu, hru⟩ := hrow hr
    cases hrs.symm.trans hru
    exact ⟨c, List.mem_filterMap.2 ⟨r, hr, Row.record?_eq_some_iff.2 hc⟩, hu⟩
  · rintro ⟨c, hc, hcs⟩
    obtain ⟨r, hr, hrc⟩ := List.mem_filterMap.1 hc
    obtain ⟨c', u, hc', hu, hru⟩ := hrow hr
    rw [Row.record?_eq_some_iff, hc'] at hrc
    cases hrc
    cases hu.symm.trans hcs
    exact List.mem_filterMap.2 ⟨r, hr, hru⟩

/-- What no two have in common finds the one that has it. -/
theorem find?_of_nodup_map {α β : Type} [DecidableEq β] {f : α → β} {xs : List α} (hnodup : (xs.map f).Nodup) {x : α}
    (hx : x ∈ xs) : xs.find? (f · = f x) = some x := by
  cases hfind : xs.find? (f · = f x) with
  | none => exact absurd (decide_eq_true rfl) (List.find?_eq_none.1 hfind x hx)
  | some y =>
    have hsame := List.find?_some hfind
    rw [List.inj_on_of_nodup_map hnodup (List.mem_of_find?_eq_some hfind) hx (of_decide_eq_true hsame)]

end Records

/-! ## Reading -/

namespace Work

section Programs

variable {σ : Type} {w : Running σ}

/-- Where reading each one succeeds and changes nothing, reading all of them does. -/
theorem mapM_apply {α β γ : Type} {f : α → Work σ β} {p : γ → α} {g : γ → Option β} {xs : List γ}
    (h : ∀ x ∈ xs, ∃ b, g x = some b ∧ f (p x) w = (.ok b, w)) :
    ((xs.map p).mapM f) w = (.ok (xs.filterMap g), w) := by
  induction xs with
  | nil => rfl
  | cons x xs ih =>
    obtain ⟨b, hb, hx⟩ := h x List.mem_cons_self
    have hxs := ih fun x hx => h x (List.mem_cons_of_mem _ hx)
    rw [List.map_cons, List.mapM_cons, bind_apply_ok hx, bind_apply_ok hxs, List.filterMap_cons_some hb]
    rfl

theorem record_apply {r : Row} {c : Record} (h : r.record = .ok c) : (record r : Work σ Record) w = (.ok c, w) := by
  unfold record
  rw [h]
  rfl

end Programs

section Store

variable {w : Running Flaky} {t : Table}

/-- By a link the records of the rows with it are read, if these can be read. -/
theorem linked_apply_of_readable (hreadable : ∀ r ∈ w.site.store.memory.rows.get t, ∃ c, r.record = .ok c)
    (hindexed : w.site.store.memory.Indexed) (hplaced : w.site.store.memory.Placed) (link : Uuid) :
    linked t link w = (.ok (recordsOf ((w.site.store.memory.rows.get t).filter (·.linkId = link))), w) := by
  have hpositions : (ask (Store.positionsByLink t link) : Work Flaky (List UInt64)) w =
      (.ok (w.site.store.memory.positions t link), w) := rfl
  unfold linked
  rw [bind_apply_ok hpositions, hindexed t link]
  refine mapM_apply fun r hr => ?_
  replace hr := (List.mem_filter.1 hr).1
  obtain ⟨c, hc⟩ := hreadable r hr
  refine ⟨c, Row.record?_eq_some_iff.2 hc, ?_⟩
  have hget : (ask (Store.get t r.position) : Work Flaky (Option Row)) w = (.ok (some r), w) := by
    rw [ask_apply, ← hplaced.row?_position hr]
    rfl
  unfold recordAt
  rw [bind_apply_ok hget]
  exact record_apply hc

variable (hlegible : ∀ r ∈ w.site.store.memory.rows.get t, r.Legible t)

include hlegible

theorem records_apply : records t w = (.ok (recordsOf (w.site.store.memory.rows.get t)), w) := by
  have hscan : (ask (Store.scan t) : Work Flaky (List Row)) w = (.ok (w.site.store.memory.rows.get t), w) := rfl
  have hrecords := mapM_apply (f := record) (p := id) (g := Row.record?) (w := w) fun r hr => by
    obtain ⟨c, hc, -⟩ := hlegible r hr
    exact ⟨c, Row.record?_eq_some_iff.2 hc, record_apply hc⟩
  unfold records
  rw [bind_apply_ok hscan]
  rwa [List.map_id] at hrecords

variable (hindexed : w.site.store.memory.Indexed) (hplaced : w.site.store.memory.Placed)

include hindexed hplaced

/-- By a link the records are read whose bodies have it. -/
theorem linked_apply (link : Uuid) :
    linked t link w = (.ok ((recordsOf (w.site.store.memory.rows.get t)).filter (·.body.linkId = link)), w) := by
  rw [← recordsOf_filter hlegible]
  refine linked_apply_of_readable (fun r hr => ?_) hindexed hplaced link
  obtain ⟨c, hc, -⟩ := hlegible r hr
  exact ⟨c, hc⟩

/-- In the tables that are about signals, these are the records about a signal. -/
theorem linked_apply_signal (ht : t ≠ .orderEvents) (id : Uuid) :
    linked t id w = (.ok ((recordsOf (w.site.store.memory.rows.get t)).filter (·.body.signalId? = some id)), w) := by
  rw [linked_apply hlegible hindexed hplaced]
  refine congrArg (fun cs => (Except.ok cs, w)) (List.filter_congr fun c hc => ?_)
  have htable := table_of_mem_recordsOf hlegible hc
  simp only [Body.signalId?_eq_some_iff (htable ▸ ht)]

/-- In the table of events, these are the records about an execution. -/
theorem linked_apply_execution (ht : t = .orderEvents) (id : Uuid) :
    linked t id w = (.ok ((recordsOf (w.site.store.memory.rows.get t)).filter (·.body.executionId? = some id)), w) := by
  rw [linked_apply hlegible hindexed hplaced]
  refine congrArg (fun cs => (Except.ok cs, w)) (List.filter_congr fun c hc => ?_)
  have htable := table_of_mem_recordsOf hlegible hc
  simp only [Body.executionId?_eq_some_iff (htable.trans ht)]

end Store

end Work

/-! ## What a session shows -/

namespace Session

variable {s : Session Flaky}

/-- The records of a table, in the order of the chain. -/
def records (s : Session Flaky) (t : Table) : List Record := recordsOf (s.rows t)

/-- A signal, and every deliberation and every execution about it, in the order of the chain. -/
def dossier (s : Session Flaky) (id : Uuid) : Option Dossier :=
  ((s.records .signals).find? (·.body.signalId? = some id)).map fun signal => {
    signal
    deliberations := (s.records .deliberations).filter (·.body.signalId? = some id)
    executions := (s.records .orderExecutions).filter (·.body.signalId? = some id) }

/-- What reading rests on. -/
structure Readable (s : Session Flaky) : Prop where
  recording : s.Recorded
  indexed : s.memory.Indexed
  legible : ∀ t, ∀ r ∈ s.rows t, r.Legible t

/-- The index of links agrees with the rows, whatever happens. -/
theorem indexed_run (h : s.Recorded) (hindexed : s.memory.Indexed) (events : List Event) :
    (s.run events).memory.Indexed := by
  induction events generalizing s with
  | nil => exact hindexed
  | cons e events ih =>
    refine ih (h.step e) ?_
    rcases memory_step h e with hsame | ⟨r, -, hstored⟩
    · rwa [hsame]
    · rw [hstored]
      exact hindexed.push r

theorem readable_run (h : s.Recorded) (hempty : ∀ t, s.rows t = []) (hindexed : s.memory.Indexed) (events : List Event) :
    (s.run events).Readable where
  recording := h.run events
  indexed := indexed_run h hindexed events
  legible t r hr := by
    obtain ⟨e, he, htable, hlink⟩ := (consistent_of_recorded h hempty events).kinds t r hr
    have hrecord : r.record =
        .ok ⟨e.table, e.position, e.recordId, Instant.calendar e.createdAt, r.digest, e.body⟩ := by
      rw [Row.record, he]
      rfl
    exact ⟨_, hrecord, htable, hlink.symm⟩

/-- Every read is answered, with what the records of the tables say. -/
structure ReadsExactly (s : Session Flaky) : Prop where
  /-- Every row reads. -/
  decoded : ∀ t, (s.rows t).map Row.record = (s.records t).map .ok
  /-- A position that the index of links names is that of a row with the link. -/
  named : ∀ t link, ∀ position ∈ s.memory.positions t link,
    ∃ r ∈ s.rows t, r.linkId = link ∧ r.position = position ∧ s.memory.row? t position = some r
  records : ∀ t, (Query.records t).answer s.running = .ok (s.records t)
  events : ∀ id, (Query.eventsOf id).answer s.running =
    .ok ((s.records .orderEvents).filter (·.body.executionId? = some id))
  dossiers : ∀ id, (Query.byCorrelation id).answer s.running = .ok (s.dossier id)
  /-- No two signals have the same identifier, or the same dedupe key. -/
  ids : ((s.records .signals).map (·.body.signalId?)).Nodup
  keys : ((s.records .signals).map (·.body.dedupeKey?)).Nodup
  /-- A dedupe key that no call holds leads to the signal that has it. -/
  signals : ∀ key, Unheld s.calls key →
    (Query.byDedupeKey key).answer s.running = .ok ((s.records .signals).find? (·.body.dedupeKey? = some key))
  /-- Once every call is done, none is held. -/
  unheld : s.quiet = true → ∀ key, Unheld s.calls key
  /-- Until then, nothing is found by one that is held. -/
  held : ∀ key, ¬ Unheld s.calls key → (Query.byDedupeKey key).answer s.running = .ok none

namespace Readable

theorem placed (h : s.Readable) : s.memory.Placed := by
  intro t i r hr
  exact ((h.recording.chained.linked t).getElem?_eq hr).1

theorem ids_nodup (h : s.Readable) : ((s.records .signals).map (·.body.signalId?)).Nodup := by
  have hids := map_fst_idsOf _ ▸ h.recording.reserved.ids.nodup
  rw [records, map_recordsOf (f := Body.signalId?) (fun _ => rfl) (h.legible .signals)]
  exact hids.map (Option.some_injective _)

theorem keys_nodup (h : s.Readable) : ((s.records .signals).map (·.body.dedupeKey?)).Nodup := by
  have hkeys := map_fst_keysOf _ ▸ h.recording.reserved.keys.nodup
  rw [records, map_recordsOf (f := Body.dedupeKey?) (fun _ => rfl) (h.legible .signals)]
  exact hkeys.map (Option.some_injective _)

theorem byCorrelation (h : s.Readable) (id : Uuid) : Work.byCorrelation id s.running = (.ok (s.dossier id), s.running) := by
  have hlinked (t : Table) (ht : t ≠ .orderEvents) :
      Work.linked t id s.running = (.ok ((s.records t).filter (·.body.signalId? = some id)), s.running) :=
    Work.linked_apply_signal (h.legible t) h.indexed h.placed ht id
  unfold Work.byCorrelation dossier
  rw [bind_apply_ok (hlinked .signals nofun), ← List.head?_filter]
  cases (s.records .signals).filter (·.body.signalId? = some id) with
  | nil => rfl
  | cons signal more =>
    dsimp only
    rw [bind_apply_ok (hlinked .deliberations nofun), bind_apply_ok (hlinked .orderExecutions nofun)]
    rfl

theorem lookup_eq_some_iff (h : s.Readable) {key : String} (hunheld : Unheld s.calls key) (id : Uuid) :
    s.running.ledger.index.lookup key = some id ↔
      ∃ g ∈ recorded (s.rows .signals), g.dedupeKey = key ∧ g.correlationId = id := by
  have hknown := h.recording.reserved.keys.known_iff key (.committed id) Claim.noConfusion
  rw [and_iff_left hunheld.keyOwner_ne, mem_keysOf] at hknown
  rw [Index.lookup_eq_some_iff]
  exact hknown.trans (by simp only [Claim.committed.injEq]; rfl)

/-- A dedupe key that no call holds finds the signal that has it. -/
theorem byDedupeKey (h : s.Readable) {key : String} (hunheld : Unheld s.calls key) :
    Work.byDedupeKey key s.running =
      (.ok ((s.records .signals).find? (·.body.dedupeKey? = some key)), s.running) := by
  unfold Work.byDedupeKey
  rw [bind_apply_ok (Work.get_apply _)]
  cases hlookup : s.running.ledger.index.lookup key with
  | none =>
    have hnone : (s.records .signals).find? (·.body.dedupeKey? = some key) = none := by
      rw [List.find?_eq_none]
      intro c hc hkey
      obtain ⟨g, hg⟩ := Body.eq_signal_of_table (table_of_mem_recordsOf (h.legible .signals) hc)
      rw [hg, decide_eq_true_eq] at hkey
      have hmem := (mem_recorded_iff (h.legible .signals)).2 ⟨c, hc, hg⟩
      have := (h.lookup_eq_some_iff hunheld g.correlationId).2 ⟨g, hmem, Option.some.inj hkey, rfl⟩
      rw [hlookup] at this
      cases this
    rw [hnone]
    rfl
  | some id =>
    obtain ⟨g, hg, rfl, rfl⟩ := (h.lookup_eq_some_iff hunheld id).1 hlookup
    obtain ⟨c, hc, hcg⟩ := (mem_recorded_iff (h.legible .signals)).1 hg
    have hid : (s.records .signals).find? (·.body.signalId? = some g.correlationId) = some c := by
      have := find?_of_nodup_map h.ids_nodup hc
      rwa [hcg] at this
    have hkey : (s.records .signals).find? (·.body.dedupeKey? = some g.dedupeKey) = some c := by
      have := find?_of_nodup_map h.keys_nodup hc
      rwa [hcg] at this
    have hlinked := Work.linked_apply_signal (h.legible .signals) h.indexed h.placed nofun g.correlationId
    dsimp only
    rw [bind_apply_ok hlinked, List.head?_filter]
    exact congrArg (fun c => (Except.ok c, s.running)) (hid.trans hkey.symm)

/-- A dedupe key that a call holds finds nothing. -/
theorem byDedupeKey_of_held (h : s.Readable) {key : String} (hheld : ¬ Unheld s.calls key) :
    Work.byDedupeKey key s.running = (.ok none, s.running) := by
  unfold Unheld at hheld
  push Not at hheld
  obtain ⟨i, res, receipt, ho, hkey⟩ := hheld
  have howner : keyOwner s.calls i = some (key, receipt.isSome) := by
    rw [keyOwner, ho, ← hkey]
    rfl
  have hget := (h.recording.reserved.keys.held_iff key).2 ⟨i, _, howner⟩
  have hlookup : s.running.ledger.index.lookup key = none := by
    rw [Index.lookup, show s.running.ledger.index.dedupeKeys.get? key = some .held from hget]
  unfold Work.byDedupeKey
  rw [bind_apply_ok (Work.get_apply _), hlookup]
  rfl

theorem readsExactly (h : s.Readable) : s.ReadsExactly where
  decoded t := map_record (h.legible t)
  named _ _ _ hposition := h.indexed.exists_row h.placed hposition
  records t := congrArg Prod.fst (Work.records_apply (h.legible t))
  events id := congrArg Prod.fst (Work.linked_apply_execution (h.legible .orderEvents) h.indexed h.placed rfl id)
  dossiers id := congrArg Prod.fst (h.byCorrelation id)
  ids := h.ids_nodup
  keys := h.keys_nodup
  signals _ hunheld := congrArg Prod.fst (h.byDedupeKey hunheld)
  unheld hquiet key := unheld_of_done (List.all_eq_true.1 hquiet) key
  held _ hheld := congrArg Prod.fst (h.byDedupeKey_of_held hheld)

end Readable

/-- A ledger that has opened over an empty store has left it so, and the clock as it was. -/
theorem site_of_opened {settings : Settings} {sink : Sink} {faults : List (Option Failure)} {now : Instant}
    {w : Running Flaky}
    (h : Ledger.opened settings sink { store := ⟨.empty, faults⟩, now, journal := [], alerts := [] } =
      (.ok w.ledger, w.site)) : w.site.store.memory = .empty ∧ w.site.now = now := by
  have hlinked (t : Table) : Chain.Linked t (Memory.empty.rows.get t) ((PerTable.ofFn Chain.Tail.empty).get t) := by
    rw [PerTable.get_ofFn, Memory.empty, PerTable.get_ofFn]
    exact .nil
  let site : Site Flaky := { store := ⟨.empty, faults⟩, now, journal := [], alerts := [] }
  obtain ⟨w', hopened, hw⟩ := Ledger.opened_of_linked (show ∀ t, Chain.Linked t (site.store.memory.rows.get t) _
    from hlinked) settings sink
  rw [show w.site = w'.site from congrArg Prod.snd (h.symm.trans hopened)]
  exact ⟨congrArg Facts.memory hw, congrArg Facts.now hw⟩

theorem memory_of_opened {settings : Settings} {sink : Sink} {faults : List (Option Failure)} {now : Instant}
    {w : Running Flaky}
    (h : Ledger.opened settings sink { store := ⟨.empty, faults⟩, now, journal := [], alerts := [] } =
      (.ok w.ledger, w.site)) : w.site.store.memory = .empty := (site_of_opened h).1

/-- A ledger opens over an empty store, and from then on, whatever calls are made, in whatever order
they take their steps, whichever appends fail and however often the ledger is opened again: what is
read is what the rows say. -/
theorem reads_exact (settings : Settings) (sink : Sink) (faults : List (Option Failure)) (now : Instant) :
    ∃ w : Running Flaky,
      Ledger.opened settings sink { store := ⟨.empty, faults⟩, now, journal := [], alerts := [] } =
        (.ok w.ledger, w.site) ∧
      ∀ events, ((⟨w, []⟩ : Session Flaky).run events).ReadsExactly := by
  obtain ⟨w, hopened, hrecorded, hempty⟩ := recorded_of_opened settings sink faults now
  have hindexed : (⟨w, []⟩ : Session Flaky).memory.Indexed := by
    rw [show (⟨w, []⟩ : Session Flaky).memory = .empty from memory_of_opened hopened]
    exact Memory.indexed_empty
  exact ⟨w, hopened, fun events => (readable_run hrecorded hempty hindexed events).readsExactly⟩

end Session

end TradeLedger

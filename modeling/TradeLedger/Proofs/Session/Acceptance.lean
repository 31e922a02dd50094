/-
How an append is answered if nothing is in its way. It is accepted exactly if its caller writes the table, its
fields are acceptable, and the rows admit it; then one row is added, and what is read of it is what was asked
for. Otherwise it is refused for the first of these that fails, and nothing is added.

The ledger asks its index and not the rows. The two agree about whatever no other call has in hand, so that it
is enough to compare them there (`Admits`), and to follow the one attempt from the index to the row.
-/
import TradeLedger.Proofs.Session.Reads
import TradeLedger.Proofs.Session.Rejection
import TradeLedger.Proofs.Session.Retries
import TradeLedger.Proofs.Session.WellFormed

namespace TradeLedger

/-- The role that appends to a table. -/
def Table.writer : Table → Role
  | .signals => .ingestion
  | .deliberations => .deliberation
  | .orderExecutions | .orderEvents => .execution

theorem Role.mayAppend_iff {role : Role} {t : Table} : role.mayAppend t = true ↔ role = t.writer := by
  cases role <;> cases t <;> decide

/-! ## What the index admits -/

/-- Nothing stands under the dedupe key of a signal, and what any other request refers to is known. -/
def Index.Admits (x : Index) : Request → Prop
  | .signal r => x.dedupeKeys.get? r.dedupeKey = none
  | .deliberation r => x.hasCorrelation r.correlationId = true
  | .execution r => x.hasCorrelation r.correlationId = true
  | .event r => x.hasExecution r.executionId = true

/-- Why a request is refused that is not admitted. -/
def Request.unadmitted : Request → Failure
  | .signal r => .duplicateSignal r.dedupeKey
  | .deliberation r => .unknownReference .correlation r.correlationId
  | .execution r => .unknownReference .correlation r.correlationId
  | .event r => .unknownReference .execution r.executionId

namespace Work

variable {σ : Type} {caller : Caller} {request : Request} {entry : Entry} {draws : Draws} {w : Running σ}

/-- What is admitted becomes an errand, for which at most the index changes. -/
theorem engage_of_admits (hentry : request.Enters entry) (h : w.ledger.index.Admits request)
    (hdrawn : request.table = .signals → ∃ id ∈ draws.correlations, w.ledger.index.correlations.get? id = none) :
    ∃ e index, engage draws entry w = (.ok e, { w with ledger.index := index }) ∧ entry.Engages draws e ∧
      ∀ res ∈ e.reservation, res.correlationId ∈ draws.correlations ∧
        w.ledger.index.correlations.get? res.correlationId = none := by
  cases hentry with
  | @signal r signal _ =>
    rw [engage_signal]
    cases hreserve : w.ledger.index.reserveSignal r.dedupeKey draws.correlations with
    | ok p =>
      obtain ⟨res, index⟩ := p
      obtain ⟨hkey, hmem, -, hfree, -⟩ := Index.reserveSignal_eq_ok hreserve
      refine ⟨_, index, rfl, .signal signal res hkey, ?_⟩
      rintro _ ⟨⟩
      exact ⟨hmem, hfree⟩
    | error f =>
      rcases Index.reserveSignal_eq_error hreserve with ⟨-, htaken⟩ | ⟨-, -, htaken⟩
      · dsimp only [Index.Admits] at h
        rw [h] at htaken
        cases htaken
      · obtain ⟨id, hid, hfree⟩ := hdrawn rfl
        have := htaken id hid
        rw [hfree] at this
        cases this
  | deliberation hd =>
    dsimp only [Index.Admits] at h
    rw [engage_deliberation, hd.correlationId, if_pos h]
    exact ⟨_, w.ledger.index, rfl, .deliberation _, nofun⟩
  | execution hx =>
    dsimp only [Index.Admits] at h
    rw [engage_execution, hx.correlationId, if_pos h]
    exact ⟨_, w.ledger.index, rfl, .execution _, nofun⟩
  | event hx =>
    dsimp only [Index.Admits] at h
    rw [engage_event, hx.executionId, if_pos h]
    exact ⟨_, w.ledger.index, rfl, .event _, nofun⟩

/-- What is not admitted is refused for that. -/
theorem engage_of_not_admits (draws : Draws) (hentry : request.Enters entry) (h : ¬ w.ledger.index.Admits request) :
    ∃ w', engage draws entry w = (.error request.unadmitted, w') := by
  cases hentry with
  | @signal r signal _ =>
    have hduplicate : w.ledger.index.reserveSignal r.dedupeKey draws.correlations =
        .error (.duplicateSignal r.dedupeKey) :=
      Index.reserveSignal_duplicate_iff.2 (Option.isSome_iff_ne_none.2 h)
    rw [engage_signal, hduplicate]
    exact ⟨_, rfl⟩
  | deliberation hd =>
    dsimp only [Index.Admits] at h
    rw [engage_deliberation, hd.correlationId, if_neg h]
    exact ⟨_, rfl⟩
  | execution hx =>
    dsimp only [Index.Admits] at h
    rw [engage_execution, hx.correlationId, if_neg h]
    exact ⟨_, rfl⟩
  | event hx =>
    dsimp only [Index.Admits] at h
    rw [engage_event, hx.executionId, if_neg h]
    exact ⟨_, rfl⟩

end Work

/-! ## The attempt -/

/-- The record that a stamped row reads as. -/
def Stamp.record (s : Stamp) (body : Body) : Record where
  table := s.row.table
  position := s.row.position
  recordId := s.row.recordId
  createdAt := s.receipt.createdAt
  digest := s.row.digest
  body

namespace Running

variable {w : Running Flaky} {e : Errand}

/-- What an attempt puts behind the end of its chain. -/
def next (w : Running Flaky) (e : Errand) : Stamp :=
  Engine.follow (w.ledger.engine.tails.get e.body.table) w.site.now e.recordId e.body

theorem record_next (hstorable : e.body.Storable)
    (hroom : (w.ledger.engine.tails.get e.body.table).position + 1 < 2 ^ 64) :
    (w.next e).row.record = .ok ((w.next e).record e.body) := by
  have hfollows := Engine.follows_follow w.site.now e.recordId hstorable hroom
  rw [Row.record, show Envelope.decode (w.next e).row.content = _ from hfollows.content]
  rfl

/-- An attempt that finds its table free, and a store that takes the row, stores it. -/
theorem attempt_of_free (hfree : w.ledger.engine.held.get e.body.table = false)
    (hfaults : ∀ f, w.site.store.faults.head? ≠ some (some f))
    (hnext : (w.next e).row.position.toNat = (w.site.store.memory.rows.get e.body.table).length + 1) :
    (w.attempt e).1 = .ok (w.next e).receipt ∧
      (w.attempt e).2.facts.memory = w.facts.memory.push (w.next e).row := by
  have happend := Flaky.append_of_next hfaults hnext
  have hstamp : w.ledger.engine.stamp w.site.now e.recordId e.body =
      .ok (w.next e, { w.ledger.engine with held := w.ledger.engine.held.set e.body.table true }) := by
    unfold Engine.stamp Engine.tail
    rw [hfree]
    rfl
  unfold attempt Engine.append
  rw [hstamp]
  simp only [Engine.complete, Site.put, Site.ask, happend, true_and]
  rfl

/-- What follows an attempt that stored its row stores nothing more. -/
theorem conclude_ok (w : Running Flaky) (e : Errand) (receipt : Receipt) :
    (w.conclude e (.ok receipt)).1 = .ok receipt ∧ (w.conclude e (.ok receipt)).2.facts.memory = w.facts.memory := by
  have hretry (left attempts : ℕ) :
      retry e left attempts (.ok receipt) w = (.ok receipt, w.rest e.body.table attempts (.ok receipt)) := by
    cases left <;> rfl
  have hregister (w : Running Flaky) : (w.register e.body (.ok receipt)).facts.memory = w.facts.memory := by
    unfold register
    split <;> rfl
  unfold conclude
  cases e.reservation with
  | some res => exact ⟨rfl, rfl⟩
  | none => simp only [hretry, hregister, facts_rest, and_self]

theorem carryOut_of_free (hfree : w.ledger.engine.held.get e.body.table = false)
    (hfaults : ∀ f, w.site.store.faults.head? ≠ some (some f))
    (hnext : (w.next e).row.position.toNat = (w.site.store.memory.rows.get e.body.table).length + 1) :
    (w.carryOut e).1 = .ok (w.next e).receipt ∧
      (w.carryOut e).2.facts.memory = w.facts.memory.push (w.next e).row := by
  obtain ⟨hanswer, hmemory⟩ := attempt_of_free hfree hfaults hnext
  obtain ⟨hconclude, hkept⟩ := conclude_ok (w.attempt e).2 e (w.next e).receipt
  unfold carryOut
  simp only [hanswer, hconclude, facts_observe, hkept, hmemory, and_self]

end Running

/-! ## What the rows admit -/

namespace Session

variable {s : Session Flaky} {c : Submission} {r : Request}

/-- No signal has the dedupe key of a signal, and what any other request refers to is committed. -/
def Admits (s : Session Flaky) : Request → Prop
  | .signal r => ∀ g ∈ recorded (s.rows .signals), g.dedupeKey ≠ r.dedupeKey
  | .deliberation r => s.memory.Has (.correlation, r.correlationId)
  | .execution r => s.memory.Has (.correlation, r.correlationId)
  | .event r => s.memory.Has (.execution, r.executionId)

/-- No call that is under way has in hand what the request is about: the dedupe key of a signal, or what any
other request refers to. -/
def Clear (s : Session Flaky) : Request → Prop
  | .signal r => Unheld s.calls r.dedupeKey
  | .deliberation r => UnheldId s.calls r.correlationId
  | .execution r => UnheldId s.calls r.correlationId
  | .event r => ∀ c ∈ s.calls, ¬ c.phase.Registers r.executionId

theorem clear_of_quiet (h : s.quiet = true) (r : Request) : s.Clear r := by
  have hdone : ∀ c ∈ s.calls, c.phase.isDone = true := List.all_eq_true.1 h
  cases r with
  | signal r => exact unheld_of_done hdone _
  | deliberation r => exact unheldId_of_done hdone _
  | execution r => exact unheldId_of_done hdone _
  | event r => exact fun c hc => Phase.not_registers_of_done (hdone c hc) _

/-- The index stands for the rows where no call is at work. -/
theorem Recorded.admits_iff (h : s.Recorded) (hclear : s.Clear r) :
    s.running.ledger.index.Admits r ↔ s.Admits r := by
  cases r with
  | signal r =>
    have hkeys := h.reserved.keys.get_eq_none_iff r.dedupeKey
    rw [and_iff_left (Unheld.keyOwner_ne hclear)] at hkeys
    refine hkeys.trans ⟨fun hnone g hg hkey => ?_, fun hnone a ha => ?_⟩
    · exact hnone _ (mem_keysOf.2 ⟨g, hg, hkey, rfl⟩)
    · obtain ⟨g, hg, hkey, -⟩ := mem_keysOf.1 ha
      exact hnone g hg hkey
  | deliberation r => exact h.reserved.hasCorrelation_iff_of_unheld hclear
  | execution r => exact h.reserved.hasCorrelation_iff_of_unheld hclear
  | event r => exact h.referring.hasExecution_iff_of_registered hclear

/-- An identifier stands for nothing in the index exactly if no signal has it and no call holds it. -/
theorem Recorded.free_iff (h : s.Recorded) {id : Uuid} :
    s.running.ledger.index.correlations.get? id = none ↔ ¬ s.memory.Has (.correlation, id) ∧ UnheldId s.calls id := by
  refine (h.reserved.ids.get_eq_none_iff id).trans (and_congr ?_ unheldId_iff.symm)
  show _ ↔ ¬ ∃ r ∈ s.rows .signals, ∃ g, r.signal? = some g ∧ g.correlationId = id
  rw [← exists_mem_recorded]
  constructor
  · rintro hnone ⟨g, hg, rfl⟩
    exact hnone _ (List.mem_map_of_mem hg)
  · rintro hnone a ha
    obtain ⟨g, hg, heq⟩ := List.mem_map.1 ha
    exact hnone ⟨g, hg, congrArg Prod.fst heq⟩

/-! ## How an append is answered -/

/-- Nothing is in the way of a call but what it asks for itself. -/
structure Undisturbed (s : Session Flaky) (c : Submission) : Prop where
  /-- The store lets the next row through. -/
  faultless : ∀ f, s.running.site.store.faults.head? ≠ some (some f)
  /-- Nobody holds the table, which has room for one more row. -/
  free : s.running.ledger.engine.held.get c.request.table = false
  room : (s.rows c.request.table).length + 1 < 2 ^ 64
  clear : s.Clear c.request
  /-- For a signal, identifiers are drawn until there is one that no signal has and no call holds. -/
  drawn : c.request.table = .signals →
    ∃ id ∈ c.draws.correlations, ¬ s.memory.Has (.correlation, id) ∧ UnheldId s.calls id

/-- What an append is answered with. -/
def reply (s : Session Flaky) (c : Submission) : Except Failure Receipt :=
  (s.running.append c.caller c.draws c.request).1

theorem answer_append (s : Session Flaky) (c : Submission) :
    (s.append c).answer s.calls.length = some (s.reply c) := by
  unfold answer append reply
  simp

/-- One row is added, and what is read of it is what was asked for. -/
structure Adds (s : Session Flaky) (c : Submission) (receipt : Receipt) (r : Row) (record : Record) : Prop where
  /-- The row is behind the last of its table, and no other table changes. -/
  rows : ∀ t, (s.append c).rows t = if t = c.request.table then s.rows t ++ [r] else s.rows t
  place : receipt.position.toNat = (s.rows c.request.table).length + 1
  /-- It is found at its position, and read behind the records before it. -/
  found : (s.append c).memory.row? c.request.table receipt.position = some r
  reads : r.record = .ok record
  records : (Query.records c.request.table).answer (s.append c).running = .ok (s.records c.request.table ++ [record])
  /-- The record says what the request does, and all else that the receipt says. -/
  yields : c.request.Yields record.body
  table : record.table = receipt.table ∧ receipt.table = c.request.table
  position : record.position = receipt.position
  recordId : record.recordId = receipt.recordId ∧ receipt.recordId = c.draws.record
  linkId : record.body.linkId = receipt.linkId
  digest : record.digest = receipt.digest
  createdAt : record.createdAt = receipt.createdAt

/-- How an append is answered that nothing is in the way of, and what it does. -/
structure Answers (s : Session Flaky) (c : Submission) : Prop where
  accepted : (∃ receipt, s.reply c = .ok receipt) ↔
    c.caller.role = c.request.table.writer ∧ c.request.Acceptable ∧ s.Admits c.request
  added : ∀ receipt, s.reply c = .ok receipt → ∃ r record, s.Adds c receipt r record
  /-- A signal is given a new identifier. -/
  named : ∀ receipt, s.reply c = .ok receipt → c.request.table = .signals →
    receipt.linkId ∈ c.draws.correlations ∧ ¬ s.memory.Has (.correlation, receipt.linkId)
  /-- A caller who does not write the table is refused for that, whatever is asked for; -/
  unauthorized : c.caller.role ≠ c.request.table.writer →
    s.reply c = .error (.unauthorized c.caller.principal s!"append to {c.request.table.name}")
  /-- else the fields are objected to, in their order; -/
  objected : c.caller.role = c.request.table.writer → ¬ c.request.Acceptable →
    ∃ f, c.request.objection? = some f ∧ s.reply c = .error f
  /-- and only then what the rows do not admit. -/
  unadmitted : c.caller.role = c.request.table.writer → c.request.Acceptable → ¬ s.Admits c.request →
    s.reply c = .error c.request.unadmitted
  /-- Whatever the reason, nothing has changed then of what is stored and known. -/
  unchanged : ∀ f, s.reply c = .error f → s.Unchanged (s.append c)

section Reply

variable {f : Failure} {w : Running Flaky}

theorem reply_of_vet (h : Work.vet c.caller c.request s.running = (.error f, w)) : s.reply c = .error f := by
  have hprepare : Work.prepare c.caller c.draws c.request s.running = (.error f, w) := bind_apply_error h
  unfold reply Running.append Running.launch
  rw [hprepare]

theorem reply_of_other (h : c.caller.role ≠ c.request.table.writer) :
    s.reply c = .error (.unauthorized c.caller.principal s!"append to {c.request.table.name}") := by
  have hvet := Work.vet_apply c.caller c.request s.running
  rw [if_neg (mt Role.mayAppend_iff.1 h)] at hvet
  exact reply_of_vet hvet

variable (hwriter : c.caller.role = c.request.table.writer)

include hwriter

/-- Who writes the table has only the request checked. -/
theorem vet_of_writer (w : Running Flaky) : Work.vet c.caller c.request w = Work.check c.request.entry w := by
  rw [Work.vet_apply, if_pos (Role.mayAppend_iff.2 hwriter)]

theorem reply_of_not_acceptable (h : ¬ c.request.Acceptable) :
    ∃ f, c.request.objection? = some f ∧ s.reply c = .error f := by
  obtain ⟨refusal, hentry, hobjection⟩ := Request.exists_refusal h
  have hvet := vet_of_writer hwriter s.running
  rw [hentry, Work.check_error] at hvet
  exact ⟨_, hobjection, reply_of_vet hvet⟩

/-- What is acceptable is held against the index. -/
theorem prepare_of_acceptable (h : c.request.Acceptable) : ∃ entry, c.request.entry = .ok entry ∧
    Work.prepare c.caller c.draws c.request s.running = Work.engage c.draws entry s.running := by
  obtain ⟨entry, hentry⟩ := Request.exists_entry h
  have hvet := vet_of_writer hwriter s.running
  rw [hentry] at hvet
  exact ⟨entry, hentry, bind_apply_ok hvet⟩

theorem reply_of_not_admits (hrecorded : s.Recorded) (hclear : s.Clear c.request) (hacceptable : c.request.Acceptable)
    (h : ¬ s.Admits c.request) : s.reply c = .error c.request.unadmitted := by
  obtain ⟨entry, hentry, hprepare⟩ := prepare_of_acceptable (s := s) hwriter hacceptable
  obtain ⟨w, hengage⟩ := Work.engage_of_not_admits c.draws (Request.enters_of_entry hentry)
    (mt (hrecorded.admits_iff hclear).1 h)
  unfold reply Running.append Running.launch
  rw [hprepare, hengage]

end Reply

section Stored

variable {e : Errand}

/-- The row that an attempt would store is next in its table. -/
theorem Recorded.position_next (h : s.Recorded) (hroom : (s.rows e.body.table).length + 1 < 2 ^ 64) :
    (s.running.next e).row.position.toNat = (s.rows e.body.table).length + 1 := by
  have htail := (sound_of_chained h.chained).position e.body.table
  rw [← htail] at hroom ⊢
  exact Engine.position_follow _ _ _ _ hroom

/-- What is admitted is stored behind the end of its chain. -/
theorem exists_stored_of_admits (hrecorded : s.Recorded) (h : s.Undisturbed c)
    (hwriter : c.caller.role = c.request.table.writer) (hacceptable : c.request.Acceptable)
    (hadmits : s.Admits c.request) :
    ∃ e, c.Becomes e ∧ s.reply c = .ok (s.running.next e).receipt ∧
      (s.append c).memory = s.memory.push (s.running.next e).row ∧
      ∀ res ∈ e.reservation,
        res.correlationId ∈ c.draws.correlations ∧ ¬ s.memory.Has (.correlation, res.correlationId) := by
  obtain ⟨entry, hentry, hprepare⟩ := prepare_of_acceptable (s := s) hwriter hacceptable
  have hdrawn (ht : c.request.table = .signals) :
      ∃ id ∈ c.draws.correlations, s.running.ledger.index.correlations.get? id = none := by
    obtain ⟨id, hid, hnew⟩ := h.drawn ht
    exact ⟨id, hid, hrecorded.free_iff.2 hnew⟩
  obtain ⟨e, index, hengage, hengages, hres⟩ :=
    Work.engage_of_admits (Request.enters_of_entry hentry) ((hrecorded.admits_iff h.clear).2 hadmits) hdrawn
  have hbecomes : c.Becomes e := ⟨entry, hentry, hengages⟩
  have happend := Running.append_eq_carryOut (hprepare.trans hengage)
  have hfree := h.free
  have hroom := h.room
  rw [← hbecomes.table] at hfree hroom
  obtain ⟨hanswer, hmemory⟩ := Running.carryOut_of_free (w := { s.running with ledger.index := index }) hfree
    h.faultless (hrecorded.position_next hroom)
  refine ⟨e, hbecomes, ?_, ?_, fun res hmem => ?_⟩
  · unfold reply
    rw [happend]
    exact hanswer
  · show (s.running.append c.caller c.draws c.request).2.facts.memory = _
    rw [happend]
    exact hmemory
  · obtain ⟨hmem, hnew⟩ := hres res hmem
    exact ⟨hmem, (hrecorded.free_iff.1 hnew).1⟩

/-- A row that was stored for what a call becomes reads as that. -/
theorem adds_of_stored (h : s.Readable) (h' : (s.append c).Readable) (hbecomes : c.Becomes e)
    (hroom : (s.rows c.request.table).length + 1 < 2 ^ 64)
    (hmemory : (s.append c).memory = s.memory.push (s.running.next e).row) :
    s.Adds c (s.running.next e).receipt (s.running.next e).row ((s.running.next e).record e.body) := by
  have htable : e.body.table = c.request.table := hbecomes.table
  have hrows (t : Table) : (s.append c).rows t =
      if t = c.request.table then s.rows t ++ [(s.running.next e).row] else s.rows t := by
    show (s.append c).memory.rows.get t = _
    rw [hmemory, Memory.rows_push, ← htable]
    rfl
  rw [← htable] at hroom
  have hplace := h.recording.position_next hroom
  have htail := (sound_of_chained h.recording.chained).position e.body.table
  have hrecord := Running.record_next (w := s.running) hbecomes.storable (htail ▸ hroom)
  have hlast : (s.running.next e).row ∈ (s.append c).rows c.request.table := by
    rw [hrows, if_pos rfl]
    exact List.mem_append_right _ List.mem_cons_self
  have hrecords : (s.append c).records c.request.table =
      s.records c.request.table ++ [(s.running.next e).record e.body] := by
    rw [records, hrows, if_pos rfl, recordsOf, List.filterMap_append]
    exact congrArg _ (recordsOf_cons hrecord)
  constructor
  case rows => exact hrows
  case place => rwa [htable] at hplace
  case found => exact h'.placed.row?_position hlast
  case reads => exact hrecord
  case records => rw [← hrecords]; exact h'.readsExactly.records c.request.table
  case yields => exact hbecomes.yields
  case table => exact ⟨rfl, htable⟩
  case recordId => exact ⟨rfl, hbecomes.recordId⟩
  all_goals rfl

end Stored

theorem answers_of_readable (h : s.Readable) (h' : (s.append c).Readable) (hfree : s.Undisturbed c) : s.Answers c := by
  have hrecorded := h.recording
  have hwriter {receipt : Receipt} (hreply : s.reply c = .ok receipt) : c.caller.role = c.request.table.writer := by
    by_contra hother
    rw [reply_of_other hother] at hreply
    cases hreply
  have hacceptable {receipt : Receipt} (hreply : s.reply c = .ok receipt) : c.request.Acceptable := by
    by_contra hnot
    obtain ⟨f, -, hf⟩ := reply_of_not_acceptable (hwriter hreply) hnot
    rw [hf] at hreply
    cases hreply
  have hadmits {receipt : Receipt} (hreply : s.reply c = .ok receipt) : s.Admits c.request := by
    by_contra hnot
    rw [reply_of_not_admits (hwriter hreply) hrecorded hfree.clear (hacceptable hreply) hnot] at hreply
    cases hreply
  have hstored {receipt : Receipt} (hreply : s.reply c = .ok receipt) :=
    exists_stored_of_admits hrecorded hfree (hwriter hreply) (hacceptable hreply) (hadmits hreply)
  constructor
  case accepted =>
    constructor
    · rintro ⟨receipt, hreply⟩
      exact ⟨hwriter hreply, hacceptable hreply, hadmits hreply⟩
    · rintro ⟨hw, ha, hs⟩
      obtain ⟨e, -, hreply, -⟩ := exists_stored_of_admits hrecorded hfree hw ha hs
      exact ⟨_, hreply⟩
  case added =>
    intro receipt hreply
    obtain ⟨e, hbecomes, hanswer, hmemory, -⟩ := hstored hreply
    cases hreply.symm.trans hanswer
    exact ⟨_, _, adds_of_stored h h' hbecomes hfree.room hmemory⟩
  case named =>
    intro receipt hreply ht
    obtain ⟨e, hbecomes, hanswer, -, hnew⟩ := hstored hreply
    cases hreply.symm.trans hanswer
    cases hres : e.reservation with
    | none => exact absurd (hbecomes.table.trans ht) (hbecomes.table_ne hres)
    | some res =>
      obtain ⟨-, g, -, -, hbody, -, hid⟩ := hbecomes.reservation hres
      have hlink : (s.running.next e).receipt.linkId = res.correlationId := by
        show e.body.linkId = _
        rw [hbody]
        exact hid
      rw [hlink]
      exact hnew res hres
  case unauthorized => exact reply_of_other
  case objected => exact reply_of_not_acceptable
  case unadmitted => exact fun hw ha => reply_of_not_admits hw hrecorded hfree.clear ha
  case unchanged =>
    intro f hreply
    refine (rejects_of_recorded hrecorded).alone c f ?_
    rw [answer_append, hreply]

/-- A ledger opens over an empty store, and whatever has happened since, however calls interleaved, whichever
appends failed and however often the ledger was opened again: an append that nothing is in the way of is
answered as its caller, its fields and the rows have it. -/
theorem appends_answered (settings : Settings) (sink : Sink) (faults : List (Option Failure)) (now : Instant) :
    ∃ w : Running Flaky,
      Ledger.opened settings sink { store := ⟨.empty, faults⟩, now, journal := [], alerts := [] } =
        (.ok w.ledger, w.site) ∧
      ∀ events c, ((⟨w, []⟩ : Session Flaky).run events).Undisturbed c →
        ((⟨w, []⟩ : Session Flaky).run events).Answers c := by
  obtain ⟨w, hopened, hrecorded, hempty⟩ := recorded_of_opened settings sink faults now
  have hindexed : (⟨w, []⟩ : Session Flaky).memory.Indexed := by
    rw [show (⟨w, []⟩ : Session Flaky).memory = .empty from memory_of_opened hopened]
    exact Memory.indexed_empty
  have hreadable (events : List Event) := readable_run hrecorded hempty hindexed events
  refine ⟨w, hopened, fun events c hfree => ?_⟩
  have happend : (run ⟨w, []⟩ (events ++ [.append c])) = (run ⟨w, []⟩ events).append c := List.foldl_append ..
  exact answers_of_readable (hreadable events) (happend ▸ hreadable (events ++ [.append c])) hfree

/-- The alert is stored, and behind it the thought about it. -/
theorem appends_answered_thought :
    ∃ w : Running Flaky,
      Ledger.opened {} .log { store := ⟨.empty, []⟩, now := 0, journal := [], alerts := [] } = (.ok w.ledger, w.site) ∧
        (⟨w, []⟩ : Session Flaky).Undisturbed alert ∧ (⟨w, []⟩ : Session Flaky).Answers alert ∧
        ((⟨w, []⟩ : Session Flaky).run [.append alert]).Undisturbed thought ∧
        ((⟨w, []⟩ : Session Flaky).run [.append alert]).Answers thought ∧
        ∃ receipt, ((⟨w, []⟩ : Session Flaky).run [.append alert]).reply thought = .ok receipt := by
  obtain ⟨w, hopened, hanswers⟩ := appends_answered {} .log [] 0
  have hanswers₀ := hanswers [] alert
  have hanswers₁ := hanswers [.append alert] thought
  obtain ⟨ledger, site⟩ := w
  cases hopened
  refine ⟨_, rfl, ?first, hanswers₀ ?first, ?second, hanswers₁ ?second, _, rfl⟩
  case first =>
    have hnone : ∀ id, ¬ Memory.empty.Has (.correlation, id) := by
      rintro id ⟨r, hr, -⟩
      cases hr
    refine ⟨fun f hf => ?_, rfl, by decide, clear_of_quiet rfl _, fun _ => ?_⟩
    · cases hf
    · exact ⟨Uuid.made 2 1, List.mem_cons_self, hnone _, unheldId_of_done (fun _ hc => by cases hc) _⟩
  case second =>
    refine ⟨fun f hf => ?_, rfl, by decide +kernel, clear_of_quiet rfl _, fun ht => ?_⟩
    · cases hf
    · cases ht

end Session

end TradeLedger

/-
Appends to different tables do not meet. Whether an append is accepted, and what it is answered with,
depends on what it looks for in the index, on the end of its own chain and on the rows of its own
table; what another append leaves behind that is stored in a different table adds to the index and
changes nothing of the rest. So two such appends are accepted in either order if each of them is
accepted alone, with the same receipts, and what they leave behind is the same.
-/
import TradeLedger.Proofs.Fleet
import TradeLedger.Proofs.Session.Retries
import TradeLedger.Proofs.Store.Links

namespace TradeLedger

/-! ## Values that are set -/

namespace PerTable

variable {α : Type}

theorem set_set (p : PerTable α) (t : Table) (a b : α) : (p.set t a).set t b = p.set t b := by cases t <;> rfl

theorem set_comm (p : PerTable α) {t u : Table} (h : t ≠ u) (a b : α) :
    (p.set t a).set u b = (p.set u b).set t a := by
  cases t <;> cases u <;> first | rfl | exact absurd rfl h

end PerTable

namespace Assoc

variable {κ α : Type} [DecidableEq κ]

theorem set_set (m : Assoc κ α) (k : κ) (a b : α) : (m.set k a).set k b = m.set k b := by
  have hput (es : List (κ × α)) : put k b (put k a es) = put k b es := by
    induction es with
    | nil => simp [put]
    | cons e es ih =>
      obtain ⟨l, c⟩ := e
      by_cases hl : k = l
      · simp [put, hl]
      · simp [put, hl, ih]
  rw [set, set, hput, set]

theorem get?_set_comm (m : Assoc κ α) {k l : κ} (h : k ≠ l) (a b : α) (i : κ) :
    ((m.set k a).set l b).get? i = ((m.set l b).set k a).get? i := by
  simp only [get?_set]
  split_ifs with hl hk
  · exact absurd (hk.symm.trans hl) h
  all_goals rfl

end Assoc

theorem Tally.get?_add_comm {α : Type} [DecidableEq α] (t : Tally α) {a b : α} (h : a ≠ b) (i : α) :
    ((t.add a).add b).get? i = ((t.add b).add a).get? i := by
  have hb : (t.add a).count b = t.count b := by rw [count_add, if_neg h, Nat.add_zero]
  have ha : (t.add b).count a = t.count a := by rw [count_add, if_neg h.symm, Nat.add_zero]
  rw [add, hb, add.eq_1 (t.add b), ha]
  exact Assoc.get?_set_comm t h _ _ i

namespace Memory

variable {m : Memory} {r s : Row}

/-- Rows of different tables are pushed in either order. -/
theorem rows_push_comm (h : r.table ≠ s.table) : ((m.push r).push s).rows = ((m.push s).push r).rows := by
  refine PerTable.ext_get fun t => ?_
  simp only [rows_push]
  split_ifs with hs hr
  · exact absurd (hr.symm.trans hs) h
  all_goals rfl

theorem links_push_comm (h : r.table ≠ s.table) (t : Table) (link : Uuid) :
    ((m.push r).push s).links.get? (t, link) = ((m.push s).push r).links.get? (t, link) := by
  have hr : (m.push r).positions s.table s.linkId = m.positions s.table s.linkId := by
    rw [positions_push, if_neg fun heq => h heq.1.symm]
  have hs : (m.push s).positions r.table r.linkId = m.positions r.table r.linkId := by
    rw [positions_push, if_neg fun heq => h heq.1]
  rw [push, hr, push.eq_1 (m.push s), hs]
  exact Assoc.get?_set_comm _ (fun heq => h (Prod.mk.inj heq).1) _ _ _

end Memory

/-! ## What an append finds in the index, and leaves there -/

namespace Index

variable {x y : Index} {draws draws' : Draws} {entry entry' : Entry} {e e' : Errand} {id i : Uuid} {key : String}
variable {res : Reservation}

/-- An entry can become an errand: what a signal needs can be reserved, and what any other entry refers to is
known. -/
inductive Takes (x : Index) (draws : Draws) : Entry → Errand → Prop where
  | signal {key signal res y} : x.reserveSignal key draws.correlations = .ok (res, y) →
      Takes x draws (.signal key signal) ⟨draws.record, .signal (signal res.correlationId), some res⟩
  | deliberation {d} : x.hasCorrelation d.correlationId = true →
      Takes x draws (.deliberation d) ⟨draws.record, .deliberation d, none⟩
  | execution {d} : x.hasCorrelation d.correlationId = true →
      Takes x draws (.execution d) ⟨draws.record, .execution d, none⟩
  | event {d} : x.hasExecution d.executionId = true → Takes x draws (.event d) ⟨draws.record, .event d, none⟩

/-- The index while the errand is under way. -/
def during (x : Index) (e : Errand) : Index :=
  match e.reservation with
  | some res => x.hold res
  | none => x

/-- The index once the errand is stored. -/
def after (x : Index) (e : Errand) : Index :=
  match e.reservation, e.body with
  | some res, _ => x.commit res
  | none, .execution _ => x.registerExecution e.recordId
  | none, _ => x

theorem commit_hold (x : Index) (res : Reservation) : (x.hold res).commit res = x.commit res := by
  unfold hold commit restore
  simp only [Assoc.set_set]

theorem hasCorrelation_restore (h : x.hasCorrelation i = true) : (x.restore key id).hasCorrelation i = true := by
  unfold hasCorrelation at h ⊢
  rw [correlations_restore]
  split_ifs
  · rfl
  · exact h

/-- Which executions are known has no part in a reservation. -/
theorem reserveFirst_executions (x : Index) (executions : List Uuid) (ids : List Uuid) :
    ({ x with executions } : Index).reserveFirst ids =
      (x.reserveFirst ids).map fun p => (p.1, { p.2 with executions }) := by
  induction ids with
  | nil => rfl
  | cons id ids ih =>
    unfold reserveFirst reserve
    by_cases hid : x.correlations.contains id = true
    · simp only [hid, if_true, ih]
    · simp only [hid, if_neg, Bool.false_eq_true, not_false_eq_true, Option.map_some]

theorem reserveSignal_registerExecution {ids : List Uuid} (h : x.reserveSignal key ids = .ok (res, y)) :
    ∃ z, (x.registerExecution id).reserveSignal key ids = .ok (res, z) := by
  unfold registerExecution
  split_ifs with hid
  · exact ⟨y, h⟩
  · have hfirst := reserveFirst_executions { x with dedupeKeys := x.dedupeKeys.set key .held } (x.executions ++ [id]) ids
    unfold reserveSignal at h ⊢
    split_ifs at h ⊢ with hkey
    dsimp only at hfirst ⊢
    rw [hfirst]
    split at h
    · rename_i heq
      cases h
      rw [heq]
      exact ⟨_, rfl⟩
    · cases h

/-- Learning of an errand leaves one for another table as possible as it was. -/
theorem Takes.after (h : x.Takes draws entry e) (h' : x.Takes draws' entry' e') (hne : e.body.table ≠ e'.body.table) :
    (x.after e').Takes draws entry e := by
  cases h' with
  | signal =>
    cases h with
    | signal => exact absurd rfl hne
    | deliberation hid => exact .deliberation (hasCorrelation_restore hid)
    | execution hid => exact .execution (hasCorrelation_restore hid)
    | event hid => exact .event hid
  | execution =>
    cases h with
    | signal hres =>
      obtain ⟨z, hz⟩ := reserveSignal_registerExecution hres
      exact .signal hz
    | deliberation hid =>
      refine .deliberation ?_
      show (x.registerExecution _).hasCorrelation _ = true
      rwa [hasCorrelation, correlations_registerExecution]
    | execution => exact absurd rfl hne
    | event hid => exact .event (hasExecution_registerExecution.2 (.inl hid))
  | deliberation => exact h
  | event => exact h

theorem commit_registerExecution (x : Index) (res : Reservation) (id : Uuid) :
    (x.commit res).registerExecution id = (x.registerExecution id).commit res := by
  unfold registerExecution commit restore
  dsimp only
  split_ifs <;> rfl

/-- In which order the index learns of errands for different tables does not count. -/
theorem Takes.after_comm (h : x.Takes draws entry e) (h' : x.Takes draws' entry' e')
    (hne : e.body.table ≠ e'.body.table) : (x.after e).after e' = (x.after e').after e := by
  cases h with
  | signal =>
    cases h' with
    | signal => exact absurd rfl hne
    | execution => exact commit_registerExecution _ _ _
    | _ => rfl
  | execution =>
    cases h' with
    | signal => exact (commit_registerExecution _ _ _).symm
    | execution => exact absurd rfl hne
    | _ => rfl
  | deliberation | event => cases h' <;> rfl

end Index

/-! ## The end of an append -/

namespace Running

section Errands

variable {w : Running Memory} {now : Instant} {e f : Errand} {journal : List Notice}

/-- The row of an errand and its receipt, if the errand is stored now. -/
def follow {σ : Type} (w : Running σ) (now : Instant) (e : Errand) : Stamp :=
  Engine.follow (w.ledger.engine.tails.get e.body.table) now e.recordId e.body

/-- Nothing is in the way of an errand: nobody holds its table, and the row that follows the end of the chain
comes right behind the last. -/
structure Open (w : Running Memory) (e : Errand) : Prop where
  free : w.ledger.engine.held.get e.body.table = false
  next : (UInt64.ofNat ((w.ledger.engine.tails.get e.body.table).position + 1)).toNat =
    w.site.store.size e.body.table + 1

/-- The ledger once the errand is stored in this row, with what is logged of it. -/
def stored (w : Running Memory) (now : Instant) (e : Errand) (s : Stamp) (journal : List Notice) : Running Memory where
  ledger :=
    { w.ledger with
      engine.tails := w.ledger.engine.tails.set e.body.table s.tail
      index := w.ledger.index.after e
      metrics := w.ledger.metrics.append e.body.table }
  site := { w.site with store := w.site.store.push s.row, now, journal }

theorem stamp_of_free (h : w.ledger.engine.held.get e.body.table = false) :
    w.ledger.engine.stamp w.site.now e.recordId e.body =
      .ok (w.follow w.site.now e, { w.ledger.engine with held := w.ledger.engine.held.set e.body.table true }) := by
  unfold Engine.stamp Engine.tail
  rw [h]
  rfl

/-- Taken and let go, a table that was free is free. -/
theorem set_held (h : w.ledger.engine.held.get e.body.table = false) :
    (w.ledger.engine.held.set e.body.table true).set e.body.table false = w.ledger.engine.held := by
  rw [PerTable.set_set, ← h, PerTable.set_get]

/-- An attempt that nothing is in the way of stores its row. -/
theorem attempt_of_open (h : w.Open e) :
    w.attempt e =
      (.ok (w.follow w.site.now e).receipt,
        { ledger := { w.ledger with
            engine.tails := w.ledger.engine.tails.set e.body.table (w.follow w.site.now e).tail }
          site := { w.site with
            store := w.site.store.push (w.follow w.site.now e).row
            journal := w.site.journal ++ [.stored (w.follow w.site.now e).row] } }) := by
  have happend : w.site.store.append (w.follow w.site.now e).row.table (w.follow w.site.now e).row =
      .ok (w.site.store.push (w.follow w.site.now e).row) := Memory.append_of_next h.next
  unfold attempt Engine.append
  rw [stamp_of_free h.free]
  simp only [Engine.complete, Memory.put_of_ok happend, Engine.settle, if_true]
  rw [show (w.follow w.site.now e).row.table = e.body.table from rfl, set_held h.free]
  rfl

/-- Any other attempt fails, and leaves everything as it was. -/
theorem attempt_of_not_open (h : ¬ w.Open e) : ∃ f, w.attempt e = (.error f, w) := by
  cases hheld : w.ledger.engine.held.get e.body.table with
  | true =>
    refine ⟨.contended e.body.table w.ledger.engine.lockTimeout, ?_⟩
    unfold attempt Engine.append Engine.stamp Engine.tail
    rw [hheld]
    rfl
  | false =>
    cases happend : w.site.store.append (w.follow w.site.now e).row.table (w.follow w.site.now e).row with
    | ok m =>
      obtain ⟨-, hnext, -⟩ := Memory.append_eq_ok happend
      exact absurd ⟨hheld, hnext⟩ h
    | error f =>
      refine ⟨f, ?_⟩
      unfold attempt Engine.append
      rw [stamp_of_free hheld]
      simp only [Engine.complete, Memory.put_of_error happend, Engine.settle, Bool.false_eq_true, if_false]
      rw [show (w.follow w.site.now e).row.table = e.body.table from rfl, set_held hheld]

theorem open_again (t : Table) (attempts : ℕ) (failure : Failure) (h : ¬ w.Open e) :
    ¬ (w.again t attempts failure).Open e := by
  have hengine : (w.again t attempts failure).ledger.engine = w.ledger.engine := by
    unfold again
    split <;> rfl
  have hstore : (w.again t attempts failure).site.store = w.site.store := by
    unfold again
    split <;> rfl
  rintro ⟨hfree, hnext⟩
  rw [hengine] at hfree hnext
  rw [hstore] at hnext
  exact h ⟨hfree, hnext⟩

/-- However often it is repeated. -/
theorem retry_of_not_open (h : ¬ w.Open e) (left attempts : ℕ) (failure : Failure) :
    ∃ f, (retry e left attempts (.error failure) w).1 = .error f := by
  induction left generalizing attempts failure w with
  | zero => exact ⟨failure, rfl⟩
  | succ left ih =>
    rw [retry]
    split_ifs
    · have hagain := open_again e.body.table attempts failure h
      obtain ⟨f, hf⟩ := attempt_of_not_open hagain
      rw [hf]
      exact ih hagain _ f
    · exact ⟨failure, rfl⟩

/-- What is carried out successfully had nothing in its way. -/
theorem open_of_carryOut {receipt : Receipt} (h : (w.carryOut e).1 = .ok receipt) : w.Open e := by
  by_contra hopen
  obtain ⟨f, hf⟩ := attempt_of_not_open hopen
  unfold carryOut conclude at h
  rw [hf] at h
  cases hres : e.reservation with
  | some res =>
    rw [hres] at h
    cases h
  | none =>
    obtain ⟨f', hf'⟩ := retry_of_not_open hopen (w.ledger.settings.retry.maxAttempts - 1) 1 f
    simp only [hres, hf'] at h
    cases h

/-- Once an errand is stored, the index learns of it. -/
theorem conclude_of_takes {x : Index} {draws : Draws} {entry : Entry} (receipt : Receipt)
    (h : x.Takes draws entry e) (hindex : w.ledger.index = x.during e) (hreceipt : receipt.recordId = e.recordId) :
    ∃ journal, w.conclude e (.ok receipt) =
      (.ok receipt, { ledger := { w.ledger with index := x.after e }, site := { w.site with journal } }) := by
  have hretry (left : ℕ) (e : Errand) : retry e left 1 (.ok receipt) w = (.ok receipt, w) := by
    cases left <;> rfl
  cases h with
  | @signal key signal res _ _ =>
    have hcommit : w.ledger.index.commit res = x.commit res := by
      rw [hindex]
      exact x.commit_hold res
    refine ⟨w.site.journal ++ [.signalCommitted receipt.position res.correlationId], ?_⟩
    simp only [conclude, settleSignal, hcommit]
    rfl
  | execution =>
    refine ⟨w.site.journal, ?_⟩
    simp only [conclude, hretry, register, hreceipt, hindex]
    rfl
  | deliberation | event =>
    refine ⟨w.site.journal, ?_⟩
    simp only [conclude, hretry, register]
    exact congrArg (fun index => (Except.ok receipt, { w with ledger.index := index })) hindex

/-- What nothing is in the way of is stored, and known from then on. -/
theorem carryOut_of_open {x : Index} {draws : Draws} {entry : Entry} (hw : w.Open e) (h : x.Takes draws entry e)
    (hindex : w.ledger.index = x.during e) :
    ∃ journal, w.carryOut e =
      (.ok (w.follow w.site.now e).receipt,
        ({ w with ledger.index := x } : Running Memory).stored w.site.now e (w.follow w.site.now e) journal) := by
  unfold carryOut
  rw [attempt_of_open hw]
  dsimp only
  generalize hv : ({ ledger := _, site := _ } : Running Memory) = v
  have hlearning : v.ledger.index = x.during e := by
    rw [← hv]
    exact hindex
  obtain ⟨journal, hconclude⟩ := conclude_of_takes (w.follow w.site.now e).receipt h hlearning rfl
  refine ⟨journal, ?_⟩
  rw [hconclude, ← hv]
  rfl

end Errands

/-! ## What an append leaves alone -/

section Beside

variable {w : Running Memory} {e f : Errand} (hne : e.body.table ≠ f.body.table)

include hne

/-- The row of an errand does not depend on what is stored in another table. -/
theorem follow_stored (w : Running Memory) (now now' : Instant) (s : Stamp) (journal : List Notice) :
    (w.stored now' f s journal).follow now e = w.follow now e := by
  unfold follow stored
  rw [PerTable.get_set_ne _ _ hne]

theorem Open.stored (h : w.Open e) (now : Instant) (journal : List Notice) :
    (w.stored now f (w.follow now f) journal).Open e := by
  obtain ⟨hfree, hnext⟩ := h
  refine ⟨hfree, ?_⟩
  show (UInt64.ofNat (((w.ledger.engine.tails.set f.body.table _).get e.body.table).position + 1)).toNat =
    ((w.site.store.push _).rows.get e.body.table).length + 1
  rw [PerTable.get_set_ne _ _ hne, Memory.rows_push, if_neg (show e.body.table ≠ (w.follow now f).row.table from hne)]
  exact hnext

end Beside

end Running

namespace Work

variable {σ : Type} {w w' : Running σ} {draws : Draws} {entry : Entry} {e : Errand} {caller : Caller} {request : Request}

theorem takes_of_engage (h : engage draws entry w = (.ok e, w')) : w.ledger.index.Takes draws entry e := by
  cases entry with
  | signal key signal =>
    rw [engage_signal] at h
    split at h
    · rename_i hreserve
      cases h
      exact .signal hreserve
    · cases h
  | deliberation d =>
    rw [engage_deliberation] at h
    split_ifs at h with hid
    · cases h
      exact .deliberation hid
    · cases h
  | execution d =>
    rw [engage_execution] at h
    split_ifs at h with hid
    · cases h
      exact .execution hid
    · cases h
  | event d =>
    rw [engage_event] at h
    split_ifs at h with hid
    · cases h
      exact .event hid
    · cases h

theorem engage_of_takes (h : w.ledger.index.Takes draws entry e) :
    engage draws entry w = (.ok e, { w with ledger.index := w.ledger.index.during e }) := by
  cases h with
  | signal hreserve =>
    obtain ⟨hkey, -, -, -, hindex⟩ := Index.reserveSignal_eq_ok hreserve
    rw [engage_signal, hreserve]
    dsimp only
    rw [hindex, ← hkey]
    rfl
  | deliberation hid =>
    rw [engage_deliberation, if_pos hid]
    rfl
  | execution hid =>
    rw [engage_execution, if_pos hid]
    rfl
  | event hid =>
    rw [engage_event, if_pos hid]
    rfl

theorem vet_of_entry (hwriter : caller.role.mayAppend request.table = true) (hentry : request.entry = .ok entry) :
    vet caller request w = (.ok entry, w) := by
  rw [vet_apply, if_pos hwriter, hentry]
  rfl

theorem mayAppend_of_vet (h : vet caller request w = (.ok entry, w')) :
    caller.role.mayAppend request.table = true := by
  rw [vet_apply] at h
  split_ifs at h with hwriter
  · exact hwriter
  · cases h

end Work

/-! ## Postings -/

/-- A call to append, the identifiers drawn for it, and what the clock shows when its row is stamped. -/
structure Posting where
  caller : Caller
  draws : Draws
  request : Request
  now : Instant

namespace Posting

variable {p q : Posting} {w : Running Memory} {e f : Errand} {a : Receipt}

/-- The call is made, and nothing else happens until it is done. -/
def post (p : Posting) (w : Running Memory) : Except Failure Receipt × Running Memory :=
  ({ w with site.now := p.now } : Running Memory).append p.caller p.draws p.request

/-- What it takes for a posting to be accepted. -/
structure Accepted (p : Posting) (w : Running Memory) (e : Errand) : Prop where
  writer : p.caller.role.mayAppend p.request.table = true
  taken : ∃ entry, p.request.entry = .ok entry ∧ w.ledger.index.Takes p.draws entry e
  opened : w.Open e

theorem prepare_of_accepted (h : p.Accepted w e) :
    Work.prepare p.caller p.draws p.request ({ w with site.now := p.now } : Running Memory) =
      (.ok e, { ledger := { w.ledger with index := w.ledger.index.during e }, site := { w.site with now := p.now } }) := by
  obtain ⟨entry, hentry, htakes⟩ := h.taken
  exact (bind_apply_ok (Work.vet_of_entry h.writer hentry)).trans (Work.engage_of_takes htakes)

theorem exists_accepted (h : (p.post w).1 = .ok a) : ∃ e, p.Accepted w e := by
  cases hprepare : Work.prepare p.caller p.draws p.request ({ w with site.now := p.now } : Running Memory) with
  | mk r w₂ =>
    cases r with
    | error failure =>
      unfold post Running.append Running.launch at h
      rw [hprepare] at h
      cases h
    | ok e =>
      obtain ⟨entry, w₁, hvet, hengage⟩ := apply_of_bind_eq_ok hprepare
      have hwriter := Work.mayAppend_of_vet hvet
      have hentry := Work.entry_of_vet hvet
      rw [Work.vet_of_entry hwriter hentry] at hvet
      cases hvet
      have htakes := Work.takes_of_engage hengage
      rw [Work.engage_of_takes htakes] at hengage
      cases hengage
      unfold post at h
      rw [Running.append_eq_carryOut hprepare] at h
      obtain ⟨hfree, hnext⟩ := Running.open_of_carryOut h
      exact ⟨e, hwriter, ⟨entry, hentry, htakes⟩, hfree, hnext⟩

theorem Accepted.post (h : p.Accepted w e) :
    ∃ journal, p.post w = (.ok (w.follow p.now e).receipt, w.stored p.now e (w.follow p.now e) journal) := by
  obtain ⟨entry, -, htakes⟩ := h.taken
  obtain ⟨journal, hcarry⟩ := Running.carryOut_of_open
    (w := { ledger := { w.ledger with index := w.ledger.index.during e }, site := { w.site with now := p.now } })
    ⟨h.opened.free, h.opened.next⟩ htakes rfl
  refine ⟨journal, ?_⟩
  unfold Posting.post
  rw [Running.append_eq_carryOut (prepare_of_accepted h), hcarry]
  rfl

theorem Accepted.table (h : p.Accepted w e) : e.body.table = p.request.table := by
  obtain ⟨entry, hentry, htakes⟩ := h.taken
  have henters := Request.enters_of_entry hentry
  generalize p.request = request at henters ⊢
  cases henters <;> cases htakes <;> rfl

/-- What is accepted is accepted behind an append to another table. -/
theorem Accepted.stored (hp : p.Accepted w e) (hq : q.Accepted w f) (hne : e.body.table ≠ f.body.table)
    (journal : List Notice) : p.Accepted (w.stored q.now f (w.follow q.now f) journal) e := by
  obtain ⟨entry, hentry, htakes⟩ := hp.taken
  obtain ⟨entry', -, htakes'⟩ := hq.taken
  exact ⟨hp.writer, ⟨entry, hentry, htakes.after htakes' hne⟩, hp.opened.stored hne q.now journal⟩

end Posting

/-! ## Two appends -/

/-- What two ledgers have in common that differ in what their logs and their clocks show, and in the order in
which they came to count. -/
structure Running.Matches (w w' : Running Memory) : Prop where
  settings : w.ledger.settings = w'.ledger.settings
  sink : w.ledger.sink = w'.ledger.sink
  locked : w.ledger.locked = w'.ledger.locked
  /-- The ends of the chains, and who holds the tables. -/
  engine : w.ledger.engine = w'.ledger.engine
  index : w.ledger.index = w'.ledger.index
  appends : ∀ t, w.ledger.metrics.appends.get? t = w'.ledger.metrics.appends.get? t
  metrics : { w.ledger.metrics with appends := .empty } = { w'.ledger.metrics with appends := .empty }
  rows : w.site.store.rows = w'.site.store.rows
  links : ∀ t link, w.site.store.links.get? (t, link) = w'.site.store.links.get? (t, link)
  alerts : w.site.alerts = w'.site.alerts

namespace Posting

variable {p q : Posting} {w : Running Memory} {e f : Errand} {a b : Receipt}

/-- In either order both are accepted, with these receipts, and what they leave behind is the same. -/
structure Commutes (p q : Posting) (w : Running Memory) (a b : Receipt) : Prop where
  first : (p.post w).1 = .ok a ∧ (q.post (p.post w).2).1 = .ok b
  second : (q.post w).1 = .ok b ∧ (p.post (q.post w).2).1 = .ok a
  final : (q.post (p.post w).2).2.Matches (p.post (q.post w).2).2

/-- The order in which both are stored is not seen in what is stored. -/
theorem Accepted.matches (hp : p.Accepted w e) (hq : q.Accepted w f) (hne : e.body.table ≠ f.body.table)
    (journal₁ journal₂ journal₃ journal₄ : List Notice) :
    ((w.stored p.now e (w.follow p.now e) journal₁).stored q.now f (w.follow q.now f) journal₂).Matches
      ((w.stored q.now f (w.follow q.now f) journal₃).stored p.now e (w.follow p.now e) journal₄) := by
  obtain ⟨_, -, htakes⟩ := hp.taken
  obtain ⟨_, -, htakes'⟩ := hq.taken
  constructor
  case engine =>
    show Engine.mk _ _ _ = Engine.mk _ _ _
    congr 1
    exact PerTable.set_comm _ hne _ _
  case index => exact htakes.after_comm htakes' hne
  case appends => exact w.ledger.metrics.appends.get?_add_comm hne
  case rows => exact Memory.rows_push_comm hne
  case links => exact Memory.links_push_comm hne
  all_goals rfl

/-- Two appends to different tables, each accepted if it is issued alone, are accepted in either order, with the
receipts that they have alone, and what they leave behind is the same. -/
theorem commutes_of_table_ne (hne : p.request.table ≠ q.request.table) (hp : (p.post w).1 = .ok a)
    (hq : (q.post w).1 = .ok b) : p.Commutes q w a b := by
  obtain ⟨e, he⟩ := exists_accepted hp
  obtain ⟨f, hf⟩ := exists_accepted hq
  rw [← he.table, ← hf.table] at hne
  obtain ⟨journal₁, hfirst⟩ := he.post
  obtain ⟨journal₂, hfirst'⟩ := hf.post
  obtain ⟨journal₃, hsecond⟩ := (he.stored hf hne journal₂).post
  obtain ⟨journal₄, hsecond'⟩ := (hf.stored he hne.symm journal₁).post
  rw [Running.follow_stored hne] at hsecond
  rw [Running.follow_stored hne.symm] at hsecond'
  rw [hfirst] at hp
  rw [hfirst'] at hq
  constructor
  case first => rw [hfirst, hsecond']; exact ⟨hp, hq⟩
  case second => rw [hfirst', hsecond]; exact ⟨hq, hp⟩
  case final =>
    rw [hfirst, hfirst', hsecond, hsecond']
    exact he.matches hf hne _ _ _ _

/-! A signal, and then, each in either order, another signal and a thought about the first. The clock is behind
when the thought is stored. -/

def signalled (n : ℕ) (dedupeKey : String) (now : Instant) : Posting where
  caller := ⟨"gateway", .ingestion⟩
  draws := ⟨Uuid.made 1 n, [Uuid.made 2 n]⟩
  request := .signal {
    dedupeKey
    symbol := "BTCUSD"
    side := .buy
    price := none
    quantity := .text "0.5"
    request := []
    sourceAddress := none
    authenticated := true }
  now

def considered : Posting where
  caller := ⟨"panel", .deliberation⟩
  draws := ⟨Uuid.made 1 3, []⟩
  request := .deliberation {
    correlationId := Uuid.made 2 1
    model := "panel-1"
    reasoning := .text "up"
    confidence := .text "0.75"
    elapsedMillis := 10
    timedOut := false }
  now := 3

theorem commutes_considered :
    ∃ w, Ledger.ofSettings {} 0 = .ok w ∧
      ∃ a b, ((signalled 2 "alert-2" 9).post ((signalled 1 "alert-1" 5).post w).2).1 = .ok a ∧
        (considered.post ((signalled 1 "alert-1" 5).post w).2).1 = .ok b ∧
        (signalled 2 "alert-2" 9).Commutes considered ((signalled 1 "alert-1" 5).post w).2 a b :=
  ⟨_, rfl, _, _, rfl, rfl, commutes_of_table_ne (by decide) rfl rfl⟩

end Posting

end TradeLedger

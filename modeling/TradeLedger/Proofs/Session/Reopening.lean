/-
Opening a ledger again is invisible. Nothing a ledger keeps in memory is more than what its rows say:
once no append is under way, the ledger that is opened on its store stands where it stands and knows
what it knows, and from then on the two cannot be told apart. Whatever calls are made, however their
steps interleave and whatever the store does, both answer the same, store the same and raise the same.

That sessions which are alike stay so is shown without any invariant; that the opened ledger is alike
rests on everything that holds at every moment of a session.
-/
import TradeLedger.Proofs.Ledger.Alike
import TradeLedger.Proofs.Session.References

namespace TradeLedger

/-! ## Questions -/

namespace Query

/-- What is answered, unless the query fails. -/
def Reply : Query → Type
  | .verifyChain _ => Chain.Verification
  | .verifyAll => List Chain.Verification
  | .byCorrelation _ => Option Dossier
  | .byDedupeKey _ => Option Record
  | .eventsOf _ => List Record
  | .records _ => List Record
  | .mutate _ => Empty

section Answers

variable {σ : Type} [Store σ]

def work : (q : Query) → Work σ q.Reply
  | .verifyChain t => Work.verifyChain t
  | .verifyAll => Work.verifyAll
  | .byCorrelation id => Work.byCorrelation id
  | .byDedupeKey dedupeKey => Work.byDedupeKey dedupeKey
  | .eventsOf executionId => Work.eventsOf executionId
  | .records t => Work.records t
  | .mutate m => Work.mutate m

/-- What a ledger answers. -/
def answer (q : Query) (w : Running σ) : Except Failure q.Reply := (q.work w).1

theorem ask_eq (q : Query) (w : Running σ) : q.ask w = (q.work w).2 := by
  cases q <;> rfl

theorem agree_work {before before' : List Alert} (q : Query) :
    Agree (Running.Alike before before') (q.work : Work σ q.Reply) q.work := by
  cases q with
  | verifyChain t => exact Work.agree_verifyChain t
  | verifyAll => exact Work.agree_verifyAll
  | byCorrelation id => exact Work.agree_byCorrelation id
  | byDedupeKey dedupeKey => exact Work.agree_byDedupeKey dedupeKey
  | eventsOf executionId => exact Work.agree_linked .orderEvents executionId
  | records t => exact Work.agree_records t
  | mutate m => exact Work.agree_mutate m

end Answers

end Query

/-! ## Calls side by side -/

namespace Running.Alike

variable {σ : Type} {before before' : List Alert} {w w' : Running σ}

theorem settleSignal (h : w.Alike before before' w') (res : Reservation) (r : Except Failure Receipt) :
    (w.settleSignal res r).Alike before before' (w'.settleSignal res r) := by
  cases r with
  | ok receipt => exact (h.withIndex (h.index.restore _ _)).note _ _
  | error f =>
    have hraised := (h.note (.signalFailed res.correlationId f) (.signalFailed res.correlationId f)).raise
      (.hotPathPersistence .signals f.message)
    exact hraised.withIndex (hraised.index.release res)

theorem contention (h : w.Alike before before' w') (t : Table) (f : Failure) :
    Running.Alike before before' (if f.isContention then w.count (·.contended t) else w)
      (if f.isContention then w'.count (·.contended t) else w') := by
  split_ifs
  · exact h.count _ _
  · exact h

theorem again (h : w.Alike before before' w') (t : Table) (attempts : ℕ) (f : Failure) :
    (w.again t attempts f).Alike before before' (w'.again t attempts f) :=
  ((h.contention t f).count _ _).note _ _

theorem rest (h : w.Alike before before' w') (t : Table) (attempts : ℕ) (r : Except Failure Receipt) :
    (w.rest t attempts r).Alike before before' (w'.rest t attempts r) := by
  unfold Running.rest
  split <;> split_ifs
  · exact h.note _ _
  · exact h
  · exact h.raise _
  · exact h

theorem register (h : w.Alike before before' w') (body : Body) (r : Except Failure Receipt) :
    (w.register body r).Alike before before' (w'.register body r) := by
  unfold Running.register
  split
  · exact h.withIndex (h.index.registerExecution _)
  · exact h

theorem observe (h : w.Alike before before' w') (t : Table) (r : Except Failure Receipt) :
    (w.observe t r).Alike before before' (w'.observe t r) := by
  unfold Running.observe
  cases r with
  | ok receipt => exact h.count _ _
  | error f => exact (h.contention t f).count _ _

theorem conclude (h : w.Alike before before' w') (e : Errand) (r : Except Failure Receipt) (left attempts : ℕ) :
    Paired (Running.Alike before before') (Phase.conclude e r left attempts w)
      (Phase.conclude e r left attempts w') := by
  unfold Phase.conclude
  split
  · exact .of ((h.settleSignal _ _).observe _ _)
  · split
    · split_ifs
      · exact .of (h.again _ _ _)
      · exact .of (h.observe _ _)
    · exact .of (((h.rest _ _ _).register _ _).observe _ _)

section Stores

variable [Store σ]

theorem complete (h : w.Alike before before' w') (s : Stamp) :
    Paired (Running.Alike before before') (w.complete s) (w'.complete s) := by
  obtain ⟨r, v, v', hv, hv', hs⟩ := (h.site.put s.row.table s.row).cases
  unfold Running.complete Engine.complete
  rw [hv, hv', h.engine]
  cases r with
  | ok _ => exact ⟨rfl, h.settings, h.sink, rfl, h.index, hs⟩
  | error f => exact ⟨rfl, h.settings, h.sink, rfl, h.index, hs⟩

/-- A call takes the same step in both. -/
theorem advance (h : w.Alike before before' w') (c : Submission) (p : Phase) :
    Paired (Running.Alike before before') (p.advance c w) (p.advance c w') := by
  cases p with
  | asked =>
    obtain ⟨r, v, v', hv, hv', halike⟩ := (Work.agree_vet c.caller c.request h).cases
    simp only [Phase.advance, hv, hv']
    cases r with
    | ok entry => exact .of halike
    | error f => exact .of (halike.observe _ _)
  | vetted entry =>
    obtain ⟨r, v, v', hv, hv', halike⟩ := (Work.agree_engage c.draws entry h).cases
    simp only [Phase.advance, hv, hv']
    cases r with
    | ok e =>
      dsimp only
      rw [halike.retry_eq]
      exact .of halike
    | error f => exact .of (halike.observe _ _)
  | ready e left attempts =>
    simp only [Phase.advance, h.engine, h.site.now]
    split
    · exact .of (h.withEngine _)
    · exact .of h
  | flying e s left attempts =>
    obtain ⟨r, v, v', hv, hv', halike⟩ := (h.complete s).cases
    simp only [Phase.advance, hv, hv']
    exact .of halike
  | tried e r left attempts => exact h.conclude e r left attempts
  | done r => exact .of h

theorem iterate_advance (h : w.Alike before before' w') (c : Submission) (p : Phase) (n : ℕ) :
    Paired (Running.Alike before before') ((fun x => Phase.advance c x.1 x.2)^[n] (p, w))
      ((fun x => Phase.advance c x.1 x.2)^[n] (p, w')) := by
  induction n with
  | zero => exact .of h
  | succ n ih =>
    rw [Function.iterate_succ_apply', Function.iterate_succ_apply', ih.answer]
    exact ih.state.advance c _

/-- A call that nothing interrupts ends the same in both. -/
theorem append (h : w.Alike before before' w') (c : Submission) :
    Paired (Running.Alike before before') (w.append c.caller c.draws c.request)
      (w'.append c.caller c.draws c.request) := by
  obtain ⟨m, hm⟩ := Phase.reaches_append c w
  obtain ⟨n, hn⟩ := Phase.reaches_append c w'
  -- once a call is done further steps do nothing, so both can take as many
  have hdone (k : ℕ) (r : Except Failure Receipt) (v : Running σ) :
      (fun x => Phase.advance c x.1 x.2)^[k] (.done r, v) = (.done r, v) :=
    Function.iterate_fixed rfl k
  have hpaired := h.iterate_advance c .asked (n + m)
  rw [Function.iterate_add_apply, hm, hdone, Nat.add_comm, Function.iterate_add_apply, hn, hdone] at hpaired
  exact ⟨Phase.done.inj hpaired.answer, hpaired.state⟩

end Stores

end Running.Alike

/-! ## Sessions side by side -/

namespace Session

/-- The session goes on over another store, that is made of its own. -/
def mapStore {σ τ : Type} (s : Session σ) (into : σ → τ) : Session τ where
  running := { ledger := s.running.ledger, site := { s.running.site with store := into s.running.site.store } }
  calls := s.calls

/-- The same calls, as far as they have come, with ledgers that are alike. -/
structure Alike {σ : Type} (before before' : List Alert) (s s' : Session σ) : Prop where
  running : s.running.Alike before before' s'.running
  calls : s.calls = s'.calls

namespace Alike

variable {σ : Type} {before before' : List Alert} {s s' : Session σ}

theorem setHeld (h : s.Alike before before' s') (t : Table) (held : Bool) :
    (s.setHeld t held).Alike before before' (s'.setHeld t held) := by
  refine ⟨⟨h.running.settings, h.running.sink, ?_, h.running.index, h.running.site⟩, h.calls⟩
  show ({ s.running.ledger.engine with held := s.running.ledger.engine.held.set t held } : Engine) =
    { s'.running.ledger.engine with held := s'.running.ledger.engine.held.set t held }
  rw [h.running.engine]

theorem mapStore {τ : Type} (h : s.Alike before before' s') (into : σ → τ) :
    (s.mapStore into).Alike before before' (s'.mapStore into) where
  running := ⟨h.running.settings, h.running.sink, h.running.engine, h.running.index,
    ⟨congrArg into h.running.site.store, h.running.site.now, h.running.site.alerts⟩⟩
  calls := h.calls

section Stores

variable [Store σ]

theorem advance (h : s.Alike before before' s') (i : ℕ) : (s.advance i).Alike before before' (s'.advance i) := by
  unfold Session.advance
  rw [h.calls]
  split
  · exact h
  · rename_i c hc
    obtain ⟨p, v, v', hv, hv', halike⟩ := (h.running.advance c.submission c.phase).cases
    rw [hv, hv']
    exact ⟨halike, rfl⟩

theorem append (h : s.Alike before before' s') (c : Submission) : (s.append c).Alike before before' (s'.append c) := by
  obtain ⟨r, v, v', hv, hv', halike⟩ := (h.running.append c).cases
  unfold Session.append
  rw [hv, hv', h.calls]
  exact ⟨halike, rfl⟩

theorem reopen (h : s.Alike before before' s') (settings : Settings) (sink : Sink) :
    (s.reopen settings sink).Alike before before' (s'.reopen settings sink) := by
  unfold Session.reopen
  rcases Ledger.opened_alike h.running.site settings sink with ⟨w, w', hw, hw', halike⟩ | ⟨f, v, v', hv, hv', halike⟩
  · rw [hw, hw']
    exact ⟨halike, h.calls⟩
  · rw [hv, hv']
    exact ⟨h.running.withSite halike, h.calls⟩

/-- Sessions that are alike stay alike at every event. -/
theorem step (h : s.Alike before before' s') (e : Event) : (s.step e).Alike before before' (s'.step e) := by
  cases e with
  | call c => exact ⟨h.running, congrArg (fun calls => calls ++ [(⟨c, .asked⟩ : Call)]) h.calls⟩
  | advance i => exact h.advance i
  | append c => exact h.append c
  | query q =>
    refine ⟨?_, h.calls⟩
    rw [Session.step, Session.step, Query.ask_eq, Query.ask_eq]
    exact (q.agree_work h.running).state
  | clock now => exact ⟨h.running.withSite ⟨h.running.site.store, rfl, h.running.site.alerts⟩, h.calls⟩
  | hold t => exact h.setHeld t true
  | free t =>
    have hflight : s.inFlight t = s'.inFlight t := by rw [inFlight, inFlight, h.calls]
    rw [Session.step, Session.step, hflight]
    split_ifs
    · exact h
    · exact h.setHeld t false
  | reopen settings sink =>
    have hquiet : s.quiet = s'.quiet := by rw [quiet, quiet, h.calls]
    rw [Session.step, Session.step, hquiet]
    split_ifs
    · exact h.reopen settings sink
    · exact h

theorem run (h : s.Alike before before' s') (events : List Event) :
    (s.run events).Alike before before' (s'.run events) := by
  induction events generalizing s s' with
  | nil => exact h
  | cons e events ih => exact ih (h.step e)

/-- Whatever is asked, both answer the same. -/
theorem answer_eq (h : s.Alike before before' s') (q : Query) : q.answer s.running = q.answer s'.running :=
  (q.agree_work h.running).answer

end Stores

end Alike

end Session

/-! ## Opening again -/

/-- What stands under a name is known from who holds it and from what was written. -/
theorem Registry.get_eq {κ α : Type} {held : α} {get get' : κ → Option α} {own : ℕ → Option (κ × Bool)}
    {written : List (κ × α)} (h : Registry held get own written) (h' : Registry held get' own written) (k : κ) :
    get k = get' k := by
  refine Option.ext fun a => ?_
  by_cases ha : a = held
  · rw [ha]
    exact (h.held_iff k).trans (h'.held_iff k).symm
  · exact (h.known_iff k a ha).trans (h'.known_iff k a ha).symm

/-- Once every call is done, the index knows what is known of the rows, and nothing else. -/
theorem Recording.same_ofMemory {x : Facts} {calls : List Call} (h : Recording x calls)
    (hdone : ∀ c ∈ calls, c.phase.isDone = true) : x.index.Same (.ofMemory x.memory) := by
  have hreopened : Reserved { x with index := .ofMemory x.memory } calls := h.reserved.reopen hdone rfl rfl
  refine ⟨h.reserved.ids.get_eq hreopened.ids, h.reserved.keys.get_eq hreopened.keys, fun id => ?_⟩
  rw [Bool.eq_iff_iff, h.referring.hasExecution_iff hdone]
  exact (Index.hasExecution_ofMemory (h.chained.linked .orderExecutions)).symm

namespace Session

/-- No append is under way, and nobody holds a table. -/
def idle {σ : Type} (s : Session σ) : Bool := s.quiet && Table.all.all fun t => !s.running.ledger.engine.held.get t

variable {s : Session Flaky}

/-- Nobody holds a table of an idle session. -/
theorem held_of_idle (hidle : s.idle = true) :
    s.running.ledger.engine.held = .ofFn fun _ => false := by
  refine PerTable.ext_get fun t => ?_
  obtain ⟨-, hheld⟩ := Bool.and_eq_true_iff.1 hidle
  simpa [PerTable.get_ofFn] using List.all_eq_true.1 hheld t (Table.mem_all t)

/-- So its engine is told from a new one by the ends of the chains alone. -/
theorem engine_of_idle (h : s.Recorded) (hidle : s.idle = true) :
    s.running.ledger.engine =
      ⟨s.running.ledger.engine.tails, .ofFn fun _ => false, s.running.ledger.settings.chain.lockTimeout⟩ := by
  have htimely : s.running.ledger.engine.lockTimeout = s.running.ledger.settings.chain.lockTimeout := h.timely
  rw [← held_of_idle hidle, ← htimely]

/-- The ledger that is opened on the store of an idle session is alike. -/
theorem exists_reopened (h : s.Recorded) (hidle : s.idle = true) (verifyOnOpen : Bool) (journal : List Notice)
    (alerts : List Alert) :
    ∃ w : Running Flaky,
      Ledger.opened { s.running.ledger.settings with verifyOnOpen } s.running.ledger.sink
          { s.running.site with journal, alerts } = (.ok w.ledger, w.site) ∧
        s.running.Alike s.running.site.alerts w.site.alerts w := by
  have hdone : ∀ c ∈ s.calls, c.phase.isDone = true := List.all_eq_true.1 (Bool.and_eq_true_iff.1 hidle).1
  obtain ⟨w, hopened, hw⟩ := @Ledger.opened_of_linked _ { s.running.site with journal, alerts }
    h.chained.linked { s.running.ledger.settings with verifyOnOpen } s.running.ledger.sink
  refine ⟨w, hopened, ⟨verifyOnOpen, congrArg Facts.settings hw⟩, (congrArg Facts.sink hw).symm, ?_, ?_, ?_, ?_, ?_⟩
  · exact (engine_of_idle h hidle).trans (congrArg Facts.engine hw).symm
  · rw [show w.ledger.index = .ofMemory s.memory from congrArg Facts.index hw]
    exact h.same_ofMemory hdone
  · show (⟨s.running.facts.memory, s.running.facts.faults⟩ : Flaky) = ⟨w.facts.memory, w.facts.faults⟩
    rw [hw]
    rfl
  · exact (congrArg Facts.now hw).symm
  · exact ⟨[], by rw [List.append_nil], by rw [List.append_nil]⟩

/-- Whatever happens next in this session and in one with another ledger at work on the same calls,
the two stay alike: calls come to the same answers, and the same rows are stored and the same alerts
raised. And whatever is asked is answered the same. That holds whatever becomes of their store: both
may go on over another that is made of it, whose reads may fail as well as its appends. -/
structure Resumed (s : Session Flaky) (w : Running Flaky) : Prop where
  alike : ∀ {σ : Type} [Store σ] (into : Flaky → σ) more,
    ((s.mapStore into).run more).Alike s.running.site.alerts w.site.alerts
      (((⟨w, s.calls⟩ : Session Flaky).mapStore into).run more)
  answers : ∀ {σ : Type} [Store σ] (into : Flaky → σ) more (q : Query),
    q.answer ((s.mapStore into).run more).running =
      q.answer (((⟨w, s.calls⟩ : Session Flaky).mapStore into).run more).running

/-- A ledger opens over an empty store, and whatever has happened since: once no append is under way
and nobody holds a table, it can be closed and opened again on its store, with its settings, whether
or not it verifies its chains first. It opens, and the ledger that is open then goes on as the first
would have done. -/
theorem reopening_invisible (settings : Settings) (sink : Sink) (faults : List (Option Failure)) (now : Instant) :
    ∃ w : Running Flaky,
      Ledger.opened settings sink { store := ⟨.empty, faults⟩, now, journal := [], alerts := [] } =
        (.ok w.ledger, w.site) ∧
      ∀ events s, s = (⟨w, []⟩ : Session Flaky).run events → s.idle = true →
        ∀ verifyOnOpen journal alerts, ∃ w' : Running Flaky,
          Ledger.opened { s.running.ledger.settings with verifyOnOpen } s.running.ledger.sink
              { s.running.site with journal, alerts } = (.ok w'.ledger, w'.site) ∧ s.Resumed w' := by
  obtain ⟨w, hopened, hrecorded, -⟩ := recorded_of_opened settings sink faults now
  refine ⟨w, hopened, fun events s hs hidle verifyOnOpen journal alerts => ?_⟩
  have hs' : s.Recorded := hs ▸ hrecorded.run events
  obtain ⟨w', hopened', halike⟩ := exists_reopened hs' hidle verifyOnOpen journal alerts
  have hstart : s.Alike s.running.site.alerts w'.site.alerts ⟨w', s.calls⟩ := ⟨halike, rfl⟩
  exact ⟨w', hopened', fun into more => (hstart.mapStore into).run more,
    fun into more q => ((hstart.mapStore into).run more).answer_eq q⟩

end Session

end TradeLedger

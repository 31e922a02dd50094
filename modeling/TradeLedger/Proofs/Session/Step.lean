/-
All that one step of a call can do. Between two steps only facts count; for each step `Step` says
which facts it depends on and which it changes, so that an invariant is checked against its cases
and never against the programs themselves.
-/
import TradeLedger.Proofs.Index
import TradeLedger.Proofs.Ledger.Work
import TradeLedger.Proofs.Session

namespace TradeLedger

/-! ## References -/

/-- What a body refers to: a deliberation and an execution to their signal, an event to its execution. -/
def Body.reference? : Body → Option (Reference × Uuid)
  | .signal _ => none
  | .deliberation d => some (.correlation, d.correlationId)
  | .execution e => some (.correlation, e.correlationId)
  | .event e => some (.execution, e.executionId)

/-- Whether what is referred to is known to be committed. -/
def Index.knows (x : Index) : Reference × Uuid → Bool
  | (.correlation, id) => x.hasCorrelation id
  | (.execution, id) => x.hasExecution id

/-! ## Steps -/

/-- The errands that an entry can become. -/
inductive Entry.Engages (draws : Draws) : Entry → Errand → Prop where
  | signal {dedupeKey} (signal : Uuid → Signal) (res : Reservation) : res.dedupeKey = dedupeKey →
      Engages draws (.signal dedupeKey signal) ⟨draws.record, .signal (signal res.correlationId), some res⟩
  | deliberation (d : Deliberation) : Engages draws (.deliberation d) ⟨draws.record, .deliberation d, none⟩
  | execution (e : Execution) : Engages draws (.execution e) ⟨draws.record, .execution e, none⟩
  | event (e : OrderEvent) : Engages draws (.event e) ⟨draws.record, .event e, none⟩

namespace Phase

/-- What the steps of a call do to its phase and to the facts. -/
inductive Step (c : Submission) : Phase → Facts → Phase → Facts → Prop where
  | vetted {x entry} : c.request.entry = .ok entry → Step c .asked x (.vetted entry) x
  | refused {x f} : (f.code? = some .malformed ∨ ∃ action, f = .unauthorized c.caller.principal action) →
      Step c .asked x (.done (.error f)) x
  | engaged {x entry e left} : entry.Engages c.draws e → e.reservation = none →
      (∀ ref, e.body.reference? = some ref → x.index.knows ref = true) → Step c (.vetted entry) x (.ready e left 1) x
  | reserved {x dedupeKey signal res index left} :
      x.index.reserveSignal dedupeKey c.draws.correlations = .ok (res, index) →
      Step c (.vetted (.signal dedupeKey signal)) x
        (.ready ⟨c.draws.record, .signal (signal res.correlationId), some res⟩ left 1) { x with index }
  | unreserved {x dedupeKey signal f} : x.index.reserveSignal dedupeKey c.draws.correlations = .error f →
      Step c (.vetted (.signal dedupeKey signal)) x (.done (.error f)) x
  | unengaged {x entry f} : (∀ dedupeKey signal, entry ≠ .signal dedupeKey signal) →
      f.code? = some .unknownReference → Step c (.vetted entry) x (.done (.error f)) x
  | stamped {x e left attempts} : x.engine.held.get e.body.table = false →
      Step c (.ready e left attempts) x
        (.flying e (Engine.follow (x.engine.tails.get e.body.table) x.now e.recordId e.body) left attempts)
        { x with engine.held := x.engine.held.set e.body.table true }
  | contended {x e left attempts} : x.engine.held.get e.body.table = true →
      Step c (.ready e left attempts) x
        (.tried e (.error (.contended e.body.table x.engine.lockTimeout)) left attempts) x
  | stored {x e s left attempts} : s.row.position.toNat = (x.memory.rows.get s.row.table).length + 1 →
      Step c (.flying e s left attempts) x (.tried e (.ok s.receipt) left attempts)
        { x with engine := x.engine.settle s true, memory := x.memory.push s.row, faults := x.faults.tail }
  | lost {x e s left attempts f} : (some f ∈ x.faults ∨ ∀ key, f ≠ .duplicateSignal key) →
      Step c (.flying e s left attempts) x (.tried e (.error f) left attempts)
        { x with engine := x.engine.settle s false, faults := x.faults.tail }
  | again {x e left attempts f} : e.reservation = none → f.retryable = true →
      Step c (.tried e (.error f) (left + 1) attempts) x (.ready e left (attempts + 1)) x
  | concluded {x e r left attempts} : e.reservation = none → (∀ receipt b, r = .ok receipt → e.body ≠ .execution b) →
      Step c (.tried e r left attempts) x (.done r) x
  | registered {x e b receipt left attempts} : e.reservation = none → e.body = .execution b →
      Step c (.tried e (.ok receipt) left attempts) x (.done (.ok receipt))
        { x with index := x.index.registerExecution receipt.recordId }
  | committed {x e res receipt left attempts} : e.reservation = some res →
      Step c (.tried e (.ok receipt) left attempts) x (.done (.ok receipt)) { x with index := x.index.commit res }
  | released {x e res f left attempts} : e.reservation = some res →
      Step c (.tried e (.error f) left attempts) x (.done (.error f)) { x with index := x.index.release res }
  | idle {x r} : Step c (.done r) x (.done r) x

variable (c : Submission) (w : Running Flaky)

theorem step_asked : Step c .asked w.facts (advance c .asked w).1 (advance c .asked w).2.facts := by
  have htells := Work.tells_vet c.caller c.request w
  have hentry := @Work.entry_of_vet Flaky c.caller c.request
  have herror := @Work.error_of_vet Flaky c.caller c.request
  simp only [advance]
  cases h : Work.vet c.caller c.request w with
  | mk r w' =>
    rw [h] at htells
    cases r with
    | ok entry => simp only [htells]; exact .vetted (hentry h)
    | error f => simp only [Running.facts_observe, htells]; exact .refused (herror h)

theorem step_vetted (entry : Entry) :
    Step c (.vetted entry) w.facts (advance c (.vetted entry) w).1 (advance c (.vetted entry) w).2.facts := by
  cases entry with
  | signal dedupeKey signal =>
    simp only [advance, Work.engage_signal]
    cases h : w.ledger.index.reserveSignal dedupeKey c.draws.correlations with
    | ok p => exact .reserved h
    | error f => simp only [Running.facts_observe, Running.facts_note]; exact .unreserved h
  | deliberation d =>
    simp only [advance, Work.engage_deliberation]
    by_cases hid : w.ledger.index.hasCorrelation d.correlationId = true
    · rw [if_pos hid]
      exact .engaged (.deliberation d) rfl fun ref href => by cases href; exact hid
    · rw [if_neg hid]
      simp only [Running.facts_observe, Running.facts_note]
      exact .unengaged nofun rfl
  | execution x =>
    simp only [advance, Work.engage_execution]
    by_cases hid : w.ledger.index.hasCorrelation x.correlationId = true
    · rw [if_pos hid]
      exact .engaged (.execution x) rfl fun ref href => by cases href; exact hid
    · rw [if_neg hid]
      simp only [Running.facts_observe, Running.facts_note]
      exact .unengaged nofun rfl
  | event x =>
    simp only [advance, Work.engage_event]
    by_cases hid : w.ledger.index.hasExecution x.executionId = true
    · rw [if_pos hid]
      exact .engaged (.event x) rfl fun ref href => by cases href; exact hid
    · rw [if_neg hid]
      simp only [Running.facts_observe, Running.facts_note]
      exact .unengaged nofun rfl

theorem step_ready (e : Errand) (left attempts : Nat) :
    Step c (.ready e left attempts) w.facts (advance c (.ready e left attempts) w).1
      (advance c (.ready e left attempts) w).2.facts := by
  simp only [advance, Engine.stamp, Engine.tail]
  cases hheld : w.ledger.engine.held.get e.body.table with
  | true => exact .contended hheld
  | false => exact .stamped hheld

theorem step_flying (e : Errand) (s : Stamp) (left attempts : Nat) :
    Step c (.flying e s left attempts) w.facts (advance c (.flying e s left attempts) w).1
      (advance c (.flying e s left attempts) w).2.facts := by
  simp only [advance, Running.complete, Engine.complete, Site.put, Site.ask]
  rcases Flaky.append_cases s.row.table s.row w.site.store with ⟨h, -, hposition⟩ | ⟨f, h, hf⟩
  · simp only [h]
    exact .stored hposition
  · simp only [h]
    exact .lost hf

theorem step_settle (e : Errand) (he : e.reservation = none) (r : Except Failure Receipt) (left attempts : Nat) :
    Step c (.tried e r left attempts) w.facts (.done r)
      (((w.rest e.body.table attempts r).register e.body r).observe e.body.table r).facts := by
  rw [Running.facts_observe]
  unfold Running.register
  split
  · rename_i receipt b hb
    show Step c _ w.facts _ { (w.rest e.body.table attempts (.ok receipt)).facts with
      index := (w.rest e.body.table attempts (.ok receipt)).facts.index.registerExecution receipt.recordId }
    rw [Running.facts_rest]
    exact .registered he hb
  · rename_i hne
    rw [Running.facts_rest]
    exact .concluded he fun receipt b hr hb => hne receipt b hr hb

theorem step_tried (e : Errand) (r : Except Failure Receipt) (left attempts : Nat) :
    Step c (.tried e r left attempts) w.facts (advance c (.tried e r left attempts) w).1
      (advance c (.tried e r left attempts) w).2.facts := by
  cases he : e.reservation with
  | some res =>
    simp only [advance, conclude, he, Running.facts_observe]
    cases r with
    | ok receipt => exact .committed he
    | error f =>
      -- what is told in between leaves the facts alone
      let told := (w.note (.signalFailed res.correlationId f)).raise (.hotPathPersistence .signals f.message)
      have htold : told.facts = w.facts := by rw [Running.facts_raise, Running.facts_note]
      show Step c _ w.facts _ { told.facts with index := told.facts.index.release res }
      rw [htold]
      exact .released he
  | none =>
    simp only [advance, conclude, he]
    split
    · split
      · rw [Running.facts_again]
        exact .again he ‹_›
      · rw [Running.facts_observe]
        exact .concluded he fun _ _ hr => by cases hr
    · exact step_settle c w e he r left attempts

/-- Every step of a call is one of these. -/
theorem step_advance (p : Phase) : Step c p w.facts (advance c p w).1 (advance c p w).2.facts := by
  cases p with
  | asked => exact step_asked c w
  | vetted entry => exact step_vetted c w entry
  | ready e left attempts => exact step_ready c w e left attempts
  | flying e s left attempts => exact step_flying c w e s left attempts
  | tried e r left attempts => exact step_tried c w e r left attempts
  | done r => exact .idle

end Phase

/-! ## What an errand comes from -/

namespace Submission

variable {c : Submission} {e : Errand}

/-- The errands that a submission can become. -/
def Becomes (c : Submission) (e : Errand) : Prop :=
  ∃ entry, c.request.entry = .ok entry ∧ entry.Engages c.draws e

/-- What a submission becomes is what its request yields. -/
theorem Becomes.yields (h : c.Becomes e) : c.request.Yields e.body := by
  obtain ⟨entry, hentry, he⟩ := h
  have henters := Request.enters_of_entry hentry
  generalize c.request = request at henters
  cases henters with
  | signal hf => cases he; exact .signal (hf _).1
  | deliberation hd => cases he; exact .deliberation hd
  | execution hx => cases he; exact .execution hx
  | event hx => cases he; exact .event hx

theorem Becomes.recordId (h : c.Becomes e) : e.recordId = c.draws.record := by
  obtain ⟨entry, -, he⟩ := h
  cases he <;> rfl

/-- Whatever a submission becomes can be stored. -/
theorem Becomes.storable (h : c.Becomes e) : e.body.Storable := by
  obtain ⟨entry, hentry, he⟩ := h
  have hs := Request.storable_entry hentry c.fits
  cases he with
  | signal signal res _ => exact hs res.correlationId
  | deliberation d => exact hs
  | execution x => exact hs
  | event x => exact hs

/-- Only a signal has a reservation, and it says what is reserved for it. -/
theorem Becomes.reservation {res : Reservation} (h : c.Becomes e) (hres : e.reservation = some res) :
    ∃ r s, c.request = .signal r ∧ r.dedupeKey = res.dedupeKey ∧ e.body = .signal s ∧
      s.dedupeKey = res.dedupeKey ∧ s.correlationId = res.correlationId := by
  obtain ⟨entry, hentry, he⟩ := h
  cases he with
  | signal signal res' hkey =>
    cases hres
    obtain ⟨r, hr, hrkey, hs⟩ := Request.entry_eq_signal hentry
    exact ⟨r, _, hr, hrkey.trans hkey.symm, rfl, (hs _).1.trans hkey.symm, (hs _).2⟩
  | deliberation d => cases hres
  | execution x => cases hres
  | event x => cases hres

/-- What has no reservation is no signal. -/
theorem Becomes.table_ne (h : c.Becomes e) (hres : e.reservation = none) : e.body.table ≠ .signals := by
  obtain ⟨entry, -, he⟩ := h
  cases he with
  | signal signal res _ => cases hres
  | deliberation d => exact Table.noConfusion
  | execution x => exact Table.noConfusion
  | event x => exact Table.noConfusion

end Submission

namespace Phase

variable {c : Submission} {p p' : Phase} {x x' : Facts}

/-- Whether a phase can have come from a submission. -/
def From (c : Submission) : Phase → Prop
  | .asked => True
  | .vetted entry => c.request.entry = .ok entry
  | .ready e _ _ => c.Becomes e
  | .flying e _ _ _ => c.Becomes e
  | .tried e _ _ _ => c.Becomes e
  | .done _ => True

theorem Step.from (h : Step c p x p' x') (hp : p.From c) : p'.From c := by
  cases h with
  | vetted hentry => exact hentry
  | refused _ | unreserved _ | unengaged _ _ | concluded _ _ | registered _ _ | committed _ | released _ | idle =>
    trivial
  | engaged he _ _ => exact ⟨_, hp, he⟩
  | reserved hres =>
    exact ⟨_, hp, .signal _ _ (Index.reserveSignal_eq_ok hres).1⟩
  | stamped _ | contended _ | stored _ | lost _ | again _ _ => exact hp

/-- No step takes back a row. -/
theorem Step.keeps_rows (h : Step c p x p' x') (t : Table) : x.memory.rows.get t <+: x'.memory.rows.get t := by
  cases h with
  | stored _ => exact Memory.rows_prefix_push ..
  | _ => exact List.prefix_refl _

end Phase

end TradeLedger

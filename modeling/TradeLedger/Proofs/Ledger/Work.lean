/-
What a ledger does, run on a state: each program is a function from a ledger at work to an answer
and the ledger afterwards, and one program behind another is run on what the first left behind.

Much of what a ledger does is only told: it is counted, logged or sent as an alert. `facts` is all
the rest.
-/
import Mathlib.Tactic
import TradeLedger.Ledger.Append
import TradeLedger.Ledger.Read
import TradeLedger.Ledger.Verify
import TradeLedger.Proofs.Request
import TradeLedger.Proofs.Store.Flaky

namespace TradeLedger

/-! ## Programs on a state -/

section Programs

variable {τ α β : Type}

theorem bind_apply (x : ExceptT Failure (StateM τ) α) (f : α → ExceptT Failure (StateM τ) β) (w : τ) :
    (x >>= f) w =
      match x w with
      | (.ok a, w) => f a w
      | (.error e, w) => (.error e, w) := by
  show (match x w with | (a, w) => ExceptT.bindCont f a w) = _
  cases x w with
  | mk r w => cases r <;> rfl

theorem bind_apply_ok {x : ExceptT Failure (StateM τ) α} {f : α → ExceptT Failure (StateM τ) β} {w w' : τ} {a : α}
    (h : x w = (.ok a, w')) : (x >>= f) w = f a w' := by
  rw [bind_apply, h]

theorem bind_apply_error {x : ExceptT Failure (StateM τ) α} {f : α → ExceptT Failure (StateM τ) β} {w w' : τ}
    {e : Failure} (h : x w = (.error e, w')) : (x >>= f) w = (.error e, w') := by
  rw [bind_apply, h]

theorem apply_of_bind_eq_ok {x : ExceptT Failure (StateM τ) α} {f : α → ExceptT Failure (StateM τ) β} {w w'' : τ}
    {b : β} (h : (x >>= f) w = (.ok b, w'')) : ∃ a w', x w = (.ok a, w') ∧ f a w' = (.ok b, w'') := by
  rw [bind_apply] at h
  cases hx : x w with
  | mk r w' =>
    rw [hx] at h
    cases r with
    | ok a => exact ⟨a, w', rfl, h⟩
    | error e => cases h

/-! ### What stays as it is -/

variable {γ : Type} {view : τ → γ}

/-- Whatever the program answers, what is seen of the state stays as it is. -/
def Keeps (view : τ → γ) (x : ExceptT Failure (StateM τ) α) : Prop := ∀ w, view (x w).2 = view w

namespace Keeps

theorem pure (a : α) : Keeps view (Pure.pure a) := fun _ => rfl

theorem throw (f : Failure) : Keeps view (MonadExcept.throw f : ExceptT Failure (StateM τ) α) := fun _ => rfl

theorem get : Keeps view MonadState.get := fun _ => rfl

theorem bind {x : ExceptT Failure (StateM τ) α} {f : α → ExceptT Failure (StateM τ) β} (hx : Keeps view x)
    (hf : ∀ a, Keeps view (f a)) : Keeps view (x >>= f) := by
  intro w
  rw [bind_apply]
  have := hx w
  cases h : x w with
  | mk r w' =>
    rw [h] at this
    cases r with
    | ok a => exact (hf a w').trans this
    | error e => exact this

theorem mapM {f : α → ExceptT Failure (StateM τ) β} (hf : ∀ a, Keeps view (f a)) (xs : List α) :
    Keeps view (xs.mapM f) := by
  induction xs with
  | nil => rw [List.mapM_nil]; exact .pure _
  | cons a xs ih =>
    rw [List.mapM_cons]
    exact (hf a).bind fun b => ih.bind fun bs => .pure _

theorem forM {f : α → ExceptT Failure (StateM τ) Unit} {xs : List α} (hf : ∀ a ∈ xs, Keeps view (f a)) :
    Keeps view (xs.forM f) := by
  induction xs with
  | nil => exact .pure _
  | cons a xs ih => exact (hf a List.mem_cons_self).bind fun _ => ih fun b hb => hf b (List.mem_cons_of_mem a hb)

theorem foldlM {f : β → α → ExceptT Failure (StateM τ) β} (hf : ∀ b a, Keeps view (f b a)) (xs : List α) (b : β) :
    Keeps view (xs.foldlM f b) := by
  induction xs generalizing b with
  | nil => exact .pure _
  | cons a xs ih =>
    rw [List.foldlM_cons]
    exact (hf b a).bind fun b => ih b

end Keeps

end Programs

namespace Work

variable {σ α : Type}

theorem get_apply (w : Running σ) : (get : Work σ (Running σ)) w = (.ok w, w) := rfl

theorem ask_apply (f : σ → Except Failure α × σ) (w : Running σ) :
    (ask f : Work σ α) w = ((f w.site.store).1, { w with site.store := (f w.site.store).2 }) := rfl

theorem outcome_apply (act : Act σ α) (w : Running σ) :
    outcome act w = (.ok (act w.site).1, { w with site := (act w.site).2 }) := rfl

end Work

/-! ## Facts -/

/-- What a ledger works with: everything but what it only tells. -/
@[ext] structure Facts where
  settings : Settings
  sink : Sink
  engine : Engine
  index : Index
  locked : Bool
  memory : Memory
  faults : List (Option Failure)
  now : Instant

namespace Running

def facts (w : Running Flaky) : Facts where
  settings := w.ledger.settings
  sink := w.ledger.sink
  engine := w.ledger.engine
  index := w.ledger.index
  locked := w.ledger.locked
  memory := w.site.store.memory
  faults := w.site.store.faults
  now := w.site.now

variable (w : Running Flaky)

@[simp] theorem facts_note (n : Notice) : (w.note n).facts = w.facts := rfl

@[simp] theorem facts_count (f : Metrics → Metrics) : (w.count f).facts = w.facts := rfl

@[simp] theorem facts_raise (a : Alert) : (w.raise a).facts = w.facts := by
  unfold raise Site.raise
  split <;> rfl

@[simp] theorem facts_again (t : Table) (attempts : Nat) (f : Failure) : (w.again t attempts f).facts = w.facts := by
  unfold again
  simp only [facts_note, facts_count]
  split <;> rfl

@[simp] theorem facts_rest (t : Table) (attempts : Nat) (r : Except Failure Receipt) :
    (w.rest t attempts r).facts = w.facts := by
  unfold rest
  split <;> split <;> simp

@[simp] theorem facts_observe (t : Table) (r : Except Failure Receipt) : (w.observe t r).facts = w.facts := by
  unfold observe
  split
  · rfl
  · simp only [facts_count]
    split <;> rfl

end Running

/-- Counts a break, and locks the ledger. -/
def Running.lock {σ : Type} (w : Running σ) (t : Table) : Running σ :=
  { w.count (·.chainBreak t) with ledger.locked := true }

/-! ## What leaves alone what is seen -/

namespace Work

variable {σ γ : Type} {view : Running σ → γ}

section Noting

-- lines in the log are not seen, unless they are alerts
variable (hnote : ∀ n : Notice, n.alert? = none → Keeps view (note n))

include hnote

theorem keeps_authorize (caller : Caller) (t : Table) : Keeps view (authorize caller t) := by
  unfold authorize
  split
  · exact .pure ()
  · exact (hnote _ rfl).bind fun _ => .throw _

theorem keeps_check {α : Type} {r : Except Refusal α} (h : Malformed r) : Keeps view (check r) := by
  cases r with
  | ok a => exact .pure a
  | error refusal => exact (Keeps.forM fun n hn => hnote n ((h refusal rfl).unraised n hn)).bind fun _ => .throw _

theorem keeps_vet (caller : Caller) (request : Request) : Keeps view (vet caller request) :=
  (keeps_authorize hnote _ _).bind fun _ => keeps_check hnote (Malformed.entry request)

theorem keeps_requireCorrelation (id : Uuid) : Keeps view (requireCorrelation id) := by
  refine Keeps.get.bind fun w => ?_
  split
  · exact .pure ()
  · exact (hnote _ rfl).bind fun _ => .throw _

theorem keeps_requireExecution (id : Uuid) : Keeps view (requireExecution id) := by
  refine Keeps.get.bind fun w => ?_
  split
  · exact .pure ()
  · exact (hnote _ rfl).bind fun _ => .throw _

end Noting

section Reading

theorem keeps_record (r : Row) : Keeps view (record r) := by
  unfold record
  split
  · exact .pure _
  · exact .throw _

variable [Store σ]
-- neither is what the store is asked for
variable (hget : ∀ t position, Keeps view (ask (Store.get t position)))
variable (hpositions : ∀ t link, Keeps view (ask (Store.positionsByLink t link)))

include hget hpositions

theorem keeps_linked (t : Table) (link : Uuid) : Keeps view (linked t link) := by
  have hat (position : UInt64) : Keeps view (recordAt t position) := by
    refine (hget t position).bind fun r => ?_
    split
    · exact keeps_record _
    · exact .throw _
  exact (hpositions t link).bind fun positions => Keeps.mapM hat positions

theorem keeps_byCorrelation (id : Uuid) : Keeps view (byCorrelation id) := by
  refine (keeps_linked hget hpositions _ _).bind fun signals => ?_
  split
  · exact .pure _
  · exact (keeps_linked hget hpositions _ _).bind fun _ => (keeps_linked hget hpositions _ _).bind fun _ => .pure _

theorem keeps_byDedupeKey (dedupeKey : String) : Keeps view (byDedupeKey dedupeKey) := by
  refine Keeps.get.bind fun w => ?_
  split
  · exact .pure _
  · exact (keeps_linked hget hpositions _ _).bind fun _ => .pure _

omit hget hpositions in
theorem keeps_records (hscan : ∀ t, Keeps view (ask (Store.scan t))) (t : Table) : Keeps view (records t) :=
  (hscan t).bind fun rows => Keeps.mapM keeps_record rows

end Reading

/-! ## Programs that only tell -/

/-- Whatever the program answers, it only tells. -/
def Tells {α : Type} (act : Work Flaky α) : Prop := ∀ w, (act w).2.facts = w.facts

theorem tells_note (n : Notice) : Tells (note n) := fun _ => rfl

/-- To read is only to tell. -/
theorem tells_ask {α : Type} {f : Flaky → Except Failure α × Flaky} (hf : ∀ s, (f s).2 = s) : Tells (ask f) := by
  intro w
  rw [ask_apply]
  simp only [Running.facts, hf]

theorem tells_vet (caller : Caller) (request : Request) : Tells (vet caller request) :=
  keeps_vet (fun n _ => tells_note n) caller request

theorem tells_linked (t : Table) (link : Uuid) : Tells (linked t link) :=
  keeps_linked (fun _ _ => tells_ask fun _ => rfl) (fun _ _ => tells_ask fun _ => rfl) t link

theorem tells_byCorrelation (id : Uuid) : Tells (byCorrelation id) :=
  keeps_byCorrelation (fun _ _ => tells_ask fun _ => rfl) (fun _ _ => tells_ask fun _ => rfl) id

theorem tells_byDedupeKey (dedupeKey : String) : Tells (byDedupeKey dedupeKey) :=
  keeps_byDedupeKey (fun _ _ => tells_ask fun _ => rfl) (fun _ _ => tells_ask fun _ => rfl) dedupeKey

theorem tells_records (t : Table) : Tells (records t) := keeps_records (fun _ => tells_ask fun _ => rfl) t

theorem tells_mutate (m : Mutation) : Tells (mutate m) :=
  (Keeps.forM fun n _ => tells_note n).bind fun _ => Keeps.bind (fun _ => rfl) fun _ => .throw _

/-! ## Requests -/

theorem forM_note_apply (notices : List Notice) (w : Running σ) :
    (notices.forM note : Work σ Unit) w = (.ok (), notices.foldl Running.note w) := by
  induction notices generalizing w with
  | nil => rfl
  | cons n notices ih => exact ih (w.note n)

theorem check_error (refusal : Refusal) (w : Running σ) :
    (check (.error refusal) : Work σ α) w = (.error refusal.failure, refusal.notices.foldl Running.note w) :=
  bind_apply_ok (forM_note_apply refusal.notices w)

theorem vet_apply (caller : Caller) (request : Request) (w : Running σ) :
    vet caller request w =
      if caller.role.mayAppend request.table then check request.entry w
      else (.error (.unauthorized caller.principal s!"append to {request.table.name}"),
        w.note (.withoutGrant caller request.table)) := by
  unfold vet authorize
  split <;> rfl

/-- What is vetted is what the request asks for. -/
theorem entry_of_vet {caller : Caller} {request : Request} {entry : Entry} {w w' : Running σ}
    (h : vet caller request w = (.ok entry, w')) : request.entry = .ok entry := by
  rw [vet_apply] at h
  split at h
  · cases hr : request.entry with
    | ok a => rw [hr] at h; cases h; rfl
    | error refusal => rw [hr, check_error] at h; cases h
  · cases h

/-- A request is refused because of who asks, or because it is malformed. -/
theorem error_of_vet {caller : Caller} {request : Request} {f : Failure} {w w' : Running σ}
    (h : vet caller request w = (.error f, w')) :
    f.code? = some .malformed ∨ ∃ action, f = .unauthorized caller.principal action := by
  have hmalformed := Malformed.entry request
  rw [vet_apply] at h
  split at h
  · cases hr : request.entry with
    | ok entry => rw [hr] at h; cases h
    | error refusal =>
      rw [hr, check_error] at h
      cases h
      exact .inl (hmalformed refusal hr).code
  · cases h
    exact .inr ⟨_, rfl⟩

theorem requireCorrelation_apply (id : Uuid) (w : Running σ) :
    requireCorrelation id w =
      if w.ledger.index.hasCorrelation id then (.ok (), w)
      else (.error (.unknownReference .correlation id), w.note (.unknownReference .correlation id)) := by
  unfold requireCorrelation Index.requireCorrelation
  rw [bind_apply_ok (get_apply w)]
  split <;> rfl

theorem requireExecution_apply (id : Uuid) (w : Running σ) :
    requireExecution id w =
      if w.ledger.index.hasExecution id then (.ok (), w)
      else (.error (.unknownReference .execution id), w.note (.unknownReference .execution id)) := by
  unfold requireExecution Index.requireExecution
  rw [bind_apply_ok (get_apply w)]
  split <;> rfl

theorem reserve_apply (dedupeKey : String) (draws : List Uuid) (w : Running σ) :
    reserve dedupeKey draws w =
      match w.ledger.index.reserveSignal dedupeKey draws with
      | .ok (res, index) => (.ok res, { w with ledger.index := index })
      | .error f => (.error f, w.note (.duplicateSignal dedupeKey)) := by
  unfold reserve
  rw [bind_apply, get_apply]
  dsimp only
  cases w.ledger.index.reserveSignal dedupeKey draws with
  | ok p => rfl
  | error f => rfl

/-- A signal has its dedupe key and an identifier reserved, or is refused for what cannot be. -/
theorem engage_signal (draws : Draws) (dedupeKey : String) (signal : Uuid → Signal) (w : Running σ) :
    engage draws (.signal dedupeKey signal) w =
      match w.ledger.index.reserveSignal dedupeKey draws.correlations with
      | .ok (res, index) =>
        (.ok ⟨draws.record, .signal (signal res.correlationId), some res⟩, { w with ledger.index := index })
      | .error f => (.error f, w.note (.duplicateSignal dedupeKey)) := by
  show (reserve dedupeKey draws.correlations >>= _ : Work σ Errand) w = _
  rw [bind_apply, reserve_apply]
  cases w.ledger.index.reserveSignal dedupeKey draws.correlations with
  | ok p => rfl
  | error f => rfl

/-- What refers to a signal is taken up if the signal is known. -/
theorem requireCorrelation_bind (id : Uuid) (e : Errand) (w : Running σ) :
    (requireCorrelation id >>= fun _ => pure e : Work σ Errand) w =
      if w.ledger.index.hasCorrelation id then (.ok e, w)
      else (.error (.unknownReference .correlation id), w.note (.unknownReference .correlation id)) := by
  rw [bind_apply, requireCorrelation_apply]
  split_ifs <;> rfl

theorem engage_deliberation (draws : Draws) (d : Deliberation) (w : Running σ) :
    engage draws (.deliberation d) w =
      if w.ledger.index.hasCorrelation d.correlationId then (.ok ⟨draws.record, .deliberation d, none⟩, w)
      else (.error (.unknownReference .correlation d.correlationId),
        w.note (.unknownReference .correlation d.correlationId)) :=
  requireCorrelation_bind _ _ w

theorem engage_execution (draws : Draws) (x : Execution) (w : Running σ) :
    engage draws (.execution x) w =
      if w.ledger.index.hasCorrelation x.correlationId then (.ok ⟨draws.record, .execution x, none⟩, w)
      else (.error (.unknownReference .correlation x.correlationId),
        w.note (.unknownReference .correlation x.correlationId)) :=
  requireCorrelation_bind _ _ w

theorem engage_event (draws : Draws) (x : OrderEvent) (w : Running σ) :
    engage draws (.event x) w =
      if w.ledger.index.hasExecution x.executionId then (.ok ⟨draws.record, .event x, none⟩, w)
      else (.error (.unknownReference .execution x.executionId),
        w.note (.unknownReference .execution x.executionId)) := by
  show (requireExecution x.executionId >>= _ : Work σ Errand) w = _
  rw [bind_apply, requireExecution_apply]
  split_ifs <;> rfl

/-! ## Verification -/

/-- A chain that cannot be read is not verified, one that is intact is logged, and for one that is broken the
ledger is locked and an alert raised. -/
theorem verifyChain_apply [Store σ] (t : Table) (w : Running σ) :
    verifyChain t w =
      let scanned : Running σ := { w with site.store := (Store.scan t w.site.store).2 }
      match (Store.scan t w.site.store).1 with
      | .error f => (.error f, scanned)
      | .ok rows =>
        match Chain.verify t rows with
        | .intact u tail => (.ok (.intact u tail), scanned.note (.chainIntact u tail))
        | .broken b =>
          (.ok (.broken b),
            ((scanned.lock t).note (.chainBroken b)).raise (.chainIntegrity t b.position b.expected b.actual)) := by
  unfold verifyChain
  rw [bind_apply, ask_apply]
  cases (Store.scan t w.site.store).1 with
  | error f => rfl
  | ok rows =>
    dsimp only
    cases Chain.verify t rows <;> rfl

/-- A chain that is intact is found so, and nothing is locked. -/
theorem verifyChain_intact {t : Table} {tail : Chain.Tail} {w : Running Flaky}
    (h : Chain.verify t (w.facts.memory.rows.get t) = .intact t tail) :
    verifyChain t w = (.ok (.intact t tail), w.note (.chainIntact t tail)) := by
  have hscan : (Store.scan t w.site.store).1 = .ok (w.facts.memory.rows.get t) := rfl
  rw [verifyChain_apply]
  simp only [hscan, h]
  rfl

/-- Where every chain is intact, verifying them all finds them so, and only tells. -/
theorem verifyAll_intact {tails : PerTable Chain.Tail} {w : Running Flaky}
    (h : ∀ t, Chain.verify t (w.facts.memory.rows.get t) = .intact t (tails.get t)) :
    ∃ w', verifyAll w = (.ok (Table.all.map fun t => .intact t (tails.get t)), w') ∧ w'.facts = w.facts := by
  have hfrom (ts : List Table) (w' : Running Flaky) (hw : w'.facts = w.facts) :
      ∃ w'', (ts.mapM verifyChain : Work Flaky _) w' = (.ok (ts.map fun t => .intact t (tails.get t)), w'') ∧
        w''.facts = w.facts := by
    induction ts generalizing w' with
    | nil => exact ⟨w', rfl, hw⟩
    | cons t ts ih =>
      obtain ⟨w'', hts, hw''⟩ := ih (w'.note (.chainIntact t (tails.get t))) (by rw [Running.facts_note, hw])
      refine ⟨w'', ?_, hw''⟩
      rw [List.mapM_cons, bind_apply_ok (verifyChain_intact (by rw [hw]; exact h t)), bind_apply_ok hts]
      rfl
  exact hfrom Table.all w rfl

end Work

end TradeLedger

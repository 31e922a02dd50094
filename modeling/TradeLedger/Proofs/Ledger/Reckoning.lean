/-
What a ledger has told of itself: the alerts that it raised, whether it is locked, and what it has
counted. It is held against what came to pass, which is said in terms of answers alone: of the engine
to an attempt, of the ledger to whoever asked. For each occurrence it is fixed which alert and which
counts are due, and each program of a ledger tells exactly what is due for what comes to pass in it.
-/
import TradeLedger.Proofs.Index
import TradeLedger.Proofs.Ledger.Opening

namespace TradeLedger

/-! ## What may pass -/

/-- A failure that may pass: others held the table for too long, or the store failed. -/
inductive Failure.Passing : Failure → Prop where
  | contended (t : Table) (waited : Duration) : Passing (.contended t waited)
  | storage (reason : String) : Passing (.storage reason)

namespace Failure

instance : DecidablePred Passing
  | .contended t waited => isTrue (.contended t waited)
  | .storage reason => isTrue (.storage reason)
  | .floatContamination _ | .invalidDecimal _ _ | .malformedField _ _ | .immutable _ _ | .unknownReference _ _
  | .duplicateSignal _ | .chainBroken _ _ | .unauthorized _ _ | .serialization _ | .configuration _ | .io _
  | .identifiersTaken => isFalse nofun

variable {f : Failure}

/-- This is what the ledger asks of a failure before it attempts again. -/
@[simp] theorem retryable_eq_true_iff : f.retryable = true ↔ f.Passing := by
  constructor
  · intro h
    cases f with
    | contended t waited => exact .contended t waited
    | storage reason => exact .storage reason
    | _ => cases h
  · rintro (_ | _) <;> rfl

theorem passing_of_isContention (h : f.isContention = true) : f.Passing := by
  cases f with
  | contended t waited => exact .contended t waited
  | _ => cases h

/-- What an auditor is told of by a code does not pass. -/
theorem not_passing_of_code {code : AuditCode} (h : f.code? = some code) : ¬ f.Passing := by
  rintro (_ | _) <;> cases h

end Failure

/-- Whether an attempt did not get hold of its table, because others held it for too long. -/
def isContended : Except Failure Receipt → Bool
  | .error (.contended _ _) => true
  | _ => false

@[simp] theorem isContended_ok (receipt : Receipt) : isContended (.ok receipt) = false := rfl

/-- This is what the ledger asks of a failure before it counts. -/
@[simp] theorem isContended_error (f : Failure) : isContended (.error f) = f.isContention := by
  cases f <;> rfl

/-! ## What comes to pass -/

/-- Something that a ledger has to account for. -/
inductive Occurrence where
  /-- The chain of a table was verified. -/
  | verified (t : Table) (v : Chain.Verification)
  /-- The engine answered an attempt to append to a table. -/
  | attempted (t : Table) (r : Except Failure Receipt)
  /-- An append to a table was answered, after so many attempts. -/
  | appended (t : Table) (attempts : ℕ) (r : Except Failure Receipt)
  /-- An append to a table was turned down, before any attempt. -/
  | declined (t : Table) (f : Failure)
  /-- A change of what is committed was refused. -/
  | refused (f : Failure)
  deriving DecidableEq

namespace Occurrence

/-- The alert that is due: for a break, for a signal that was attempted in vain, and for anything else that was
attempted in vain until its last attempt failed in a way that may pass. -/
@[simp] def alert? : Occurrence → Option Alert
  | .verified _ (.broken b) => some (.chainIntegrity b.table b.position b.expected b.actual)
  | .appended t attempts (.error f) =>
    if t = .signals then some (.hotPathPersistence t f.message)
    else if f.Passing then some (.retriesExhausted t attempts f.message)
    else none
  | _ => none

/-- What an append to a table was answered. -/
@[simp] def answer? : Occurrence → Option (Table × Except Failure Receipt)
  | .appended t _ r => some (t, r)
  | .declined t f => some (t, .error f)
  | _ => none

/-- The table that something was appended to. -/
@[simp] def append? : Occurrence → Option Table
  | .appended t _ (.ok _) => some t
  | _ => none

/-- What was rejected is counted by its cause. -/
@[simp] def rejection? : Occurrence → Option Label
  | .appended _ _ (.error f) | .declined _ f | .refused f => some f.label
  | _ => none

/-- The table that an attempt did not get hold of. -/
@[simp] def contention? : Occurrence → Option Table
  | .attempted t r => if isContended r then some t else none
  | _ => none

/-- The table whose chain was found broken. -/
@[simp] def chainBreak? : Occurrence → Option Table
  | .verified t (.broken _) => some t
  | _ => none

theorem any_chainBreak? (os : List Occurrence) :
    os.any (·.chainBreak?.isSome) = true ↔ ∃ t b, .verified t (.broken b) ∈ os := by
  rw [List.any_eq_true]
  constructor
  · rintro ⟨o, ho, hbreak⟩
    cases o with
    | verified t v =>
      cases v with
      | intact u tail => cases hbreak
      | broken b => exact ⟨t, b, ho⟩
    | attempted t r | appended t attempts r | declined t f | refused f => cases hbreak
  · rintro ⟨t, b, ho⟩
    exact ⟨_, ho, rfl⟩

end Occurrence

/-! ## What is told -/

/-- The alerts in the log. -/
def Site.raised {σ : Type} (s : Site σ) : List Alert := s.journal.filterMap Notice.alert?

/-- What a ledger has told of itself, and what it was told to do. -/
structure Reckoning where
  settings : Settings
  sink : Sink
  raised : List Alert
  delivered : List Alert
  locked : Bool
  appends : Tally Table
  rejections : Tally Label
  contention : Tally Table
  chainBreaks : Tally Table

def Running.reckoning {σ : Type} (w : Running σ) : Reckoning where
  settings := w.ledger.settings
  sink := w.ledger.sink
  raised := w.site.raised
  delivered := w.site.alerts
  locked := w.ledger.locked
  appends := w.ledger.metrics.appends
  rejections := w.ledger.metrics.rejections
  contention := w.ledger.metrics.contention
  chainBreaks := w.ledger.metrics.chainBreaks

/-- To count one thing after the other is to count how often each is there. -/
theorem Tally.count_foldl_add {α : Type} [DecidableEq α] (t : Tally α) (as : List α) (a : α) :
    (as.foldl Tally.add t).count a = t.count a + as.count a := by
  induction as generalizing t with
  | nil => rfl
  | cons b as ih =>
    rw [List.foldl_cons, ih, Tally.count_add, List.count_cons]
    by_cases h : b = a
    · simp [h]
      omega
    · simp [h]

namespace Reckoning

/-- With more alerts. They are delivered if the sink leads to a receiver. -/
def raise (x : Reckoning) (alerts : List Alert) : Reckoning :=
  { x with
    raised := x.raised ++ alerts
    delivered := x.delivered ++ if x.sink = .channel then alerts else [] }

@[simp] theorem raise_nil (x : Reckoning) : x.raise [] = x := by
  simp [raise]

/-- What is to be told after all this came to pass. -/
def after (x : Reckoning) (os : List Occurrence) : Reckoning where
  settings := x.settings
  sink := x.sink
  raised := x.raised ++ os.filterMap Occurrence.alert?
  delivered := x.delivered ++ if x.sink = .channel then os.filterMap Occurrence.alert? else []
  locked := x.locked || os.any (·.chainBreak?.isSome)
  appends := (os.filterMap Occurrence.append?).foldl Tally.add x.appends
  rejections := (os.filterMap Occurrence.rejection?).foldl Tally.add x.rejections
  contention := (os.filterMap Occurrence.contention?).foldl Tally.add x.contention
  chainBreaks := (os.filterMap Occurrence.chainBreak?).foldl Tally.add x.chainBreaks

@[simp] theorem after_nil (x : Reckoning) : x.after [] = x := by
  simp [after]

theorem after_append (x : Reckoning) (os os' : List Occurrence) : x.after (os ++ os') = (x.after os).after os' := by
  by_cases h : x.sink = .channel <;> simp [after, List.foldl_append, Bool.or_assoc, h]

theorem after_cons (x : Reckoning) (o : Occurrence) (os : List Occurrence) :
    x.after (o :: os) = (x.after [o]).after os := after_append x [o] os

theorem after_singleton (x : Reckoning) (o : Occurrence) :
    x.after [o] = { x with
      raised := x.raised ++ o.alert?.toList
      delivered := x.delivered ++ if x.sink = .channel then o.alert?.toList else []
      locked := x.locked || o.chainBreak?.isSome
      appends := o.append?.toList.foldl Tally.add x.appends
      rejections := o.rejection?.toList.foldl Tally.add x.rejections
      contention := o.contention?.toList.foldl Tally.add x.contention
      chainBreaks := o.chainBreak?.toList.foldl Tally.add x.chainBreaks } := by
  have hone {β : Type} (f : Occurrence → Option β) : [o].filterMap f = (f o).toList := by
    cases h : f o <;> simp [h]
  simp [after, hone]

/-- A chain that is intact is not told of. -/
theorem after_intact (x : Reckoning) (t u : Table) (tail : Chain.Tail) :
    x.after [.verified t (.intact u tail)] = x := by
  simp [after_singleton]

end Reckoning

namespace Running

variable {σ : Type} (w : Running σ)

theorem reckoning_note {n : Notice} (h : n.alert? = none) : (w.note n).reckoning = w.reckoning := by
  simp [reckoning, note, Site.note, Site.raised, h]

theorem reckoning_raise (a : Alert) : (w.raise a).reckoning = w.reckoning.raise [a] := by
  cases hsink : w.ledger.sink <;>
    simp [reckoning, Reckoning.raise, raise, Site.raise, Site.note, Site.raised, Notice.alert?, hsink]

/-- What is in the store is not told. -/
theorem reckoning_store (store : σ) : ({ w with site.store := store } : Running σ).reckoning = w.reckoning := rfl

theorem reckoning_lock (t : Table) :
    (w.lock t).reckoning =
      { w.reckoning with locked := true, chainBreaks := w.reckoning.chainBreaks.add t } := rfl

/-! ### Appends -/

section Appends

variable (t : Table) (attempts : ℕ) (r : Except Failure Receipt)

/-- What an append ended with is counted, and so is that its last attempt did not get hold of the table. -/
theorem reckoning_observe :
    (w.observe t r).reckoning = { w.reckoning with
      appends := (Occurrence.append? (.appended t attempts r)).toList.foldl Tally.add w.reckoning.appends
      rejections := (Occurrence.rejection? (.appended t attempts r)).toList.foldl Tally.add w.reckoning.rejections
      contention := (Occurrence.contention? (.attempted t r)).toList.foldl Tally.add w.reckoning.contention } := by
  cases r with
  | ok receipt => rfl
  | error f => cases hf : f.isContention <;> simp [observe, hf] <;> rfl

/-- Once the alerts that are due were raised, to count what became of an append is to tell of its last attempt
and of the append. -/
theorem reckoning_observe_of_raised {w' : Running σ} (h : w'.reckoning =
      w.reckoning.raise (Occurrence.appended t attempts r).alert?.toList) :
    (w'.observe t r).reckoning = w.reckoning.after [.attempted t r, .appended t attempts r] := by
  rw [reckoning_observe w' t attempts r, h, Reckoning.after_cons, Reckoning.after_singleton, Reckoning.after_singleton]
  cases r with
  | ok receipt => simp
  | error f => by_cases hsink : w.reckoning.sink = .channel <;> simp [Reckoning.raise, hsink]

/-- The one attempt at a signal, and its end. -/
theorem reckoning_settleSignal (res : Reservation) :
    ((w.settleSignal res r).observe .signals r).reckoning =
      w.reckoning.after [.attempted .signals r, .appended .signals attempts r] := by
  apply reckoning_observe_of_raised
  cases r with
  | ok receipt => exact (reckoning_note _ rfl).trans (by simp; rfl)
  | error f =>
    -- that the reservation is given back afterwards is not told
    have hraised :=
      reckoning_raise (w.note (.signalFailed res.correlationId f)) (.hotPathPersistence .signals f.message)
    rw [reckoning_note _ rfl] at hraised
    exact hraised.trans (by simp)

/-- Another attempt follows. -/
theorem reckoning_again (f : Failure) :
    (w.again t attempts f).reckoning = w.reckoning.after [.attempted t (.error f)] := by
  rw [again, reckoning_note _ rfl, Reckoning.after_singleton]
  cases hf : f.isContention <;> simp [hf] <;> rfl

variable {t}

/-- The last attempt at an append that is not for a signal, and its end. -/
theorem reckoning_rest (ht : t ≠ .signals) (body : Body) :
    (((w.rest t attempts r).register body r).observe t r).reckoning =
      w.reckoning.after [.attempted t r, .appended t attempts r] := by
  apply reckoning_observe_of_raised
  have hregister (w' : Running σ) : (w'.register body r).reckoning = w'.reckoning := by
    unfold register
    split <;> rfl
  rw [hregister]
  unfold rest
  cases r with
  | ok receipt =>
    dsimp only
    split
    · rw [reckoning_note _ rfl]; simp
    · simp
  | error f =>
    by_cases hf : f.Passing
    · simp [ht, hf, reckoning_raise]
    · simp [ht, hf]

/-- An append that is turned down before any attempt is not turned down in a way that may pass. -/
theorem reckoning_observe_declined (t : Table) {f : Failure} (hf : ¬ f.Passing) :
    (w.observe t (.error f)).reckoning = w.reckoning.after [.declined t f] := by
  have hcontention : f.isContention = false := Bool.eq_false_iff.2 (mt Failure.passing_of_isContention hf)
  rw [reckoning_observe w t 0, Reckoning.after_singleton]
  simp [hcontention]

end Appends

end Running

/-! ## What tells nothing -/

/-- The alerts of a site, logged and delivered. -/
def Site.heard {σ : Type} (s : Site σ) : List Alert × List Alert := (s.raised, s.alerts)

section Recovery

variable {σ α : Type}

theorem Act.keeps_note {n : Notice} (h : n.alert? = none) : Keeps Site.heard (Act.note n : Act σ Unit) := by
  intro s
  show Site.heard (s.note n) = s.heard
  simp [Site.heard, Site.raised, Site.note, h]

theorem Act.keeps_ask (f : σ → Except Failure α × σ) : Keeps Site.heard (Act.ask f) := fun _ => rfl

/-- Of the ledger, neither the engine nor the index is told of, and of the site nothing but alerts. -/
theorem Running.reckoning_of_heard (w : Running σ) (engine : Engine) (index : Index) {site : Site σ}
    (h : site.heard = w.site.heard) :
    ({ ledger := { w.ledger with engine, index }, site } : Running σ).reckoning = w.reckoning := by
  obtain ⟨hraised, halerts⟩ := Prod.mk.inj h
  simp only [reckoning, hraised, halerts]

variable [Store σ]

theorem Engine.keeps_recover (lockTimeout : Duration) : Keeps Site.heard (recover lockTimeout : Act σ Engine) := by
  refine Keeps.foldlM (fun e t => (Act.keeps_ask _).bind fun last => ?_) _ _
  split
  · exact .pure _
  · split
    · exact (Act.keeps_note rfl).bind fun _ => .pure _
    · exact (Act.keeps_note rfl).bind fun _ => .throw _

theorem Index.keeps_recover : Keeps Site.heard (recover : Act σ Index) := by
  have hfound (r : Row) : Keeps Site.heard (found r : Act σ Record) := by
    unfold found
    split
    · exact .pure _
    · exact (Act.keeps_note rfl).bind fun _ => .throw _
  have hsignal (x : Index) (r : Row) : Keeps Site.heard (recoverSignal x r : Act σ Index) := by
    refine (hfound r).bind fun c => ?_
    split <;> exact .pure _
  have hexecution (x : Index) (r : Row) : Keeps Site.heard (recoverExecution x r : Act σ Index) :=
    (hfound r).bind fun c => .pure _
  exact (Act.keeps_ask _).bind fun signals => (Keeps.foldlM hsignal signals _).bind fun x =>
    (Act.keeps_ask _).bind fun executions => Keeps.foldlM hexecution executions x

theorem Work.keeps_recovery (lockTimeout : Duration) :
    Keeps Site.heard (recovery lockTimeout : Act σ (Engine × Index)) :=
  (Engine.keeps_recover lockTimeout).bind fun _ => Index.keeps_recover.bind fun _ => .pure _

/-- To store a row is not told. -/
theorem Running.reckoning_complete (w : Running σ) (s : Stamp) : (w.complete s).2.reckoning = w.reckoning := by
  have hput : (w.site.put s.row.table s.row).2.heard = w.site.heard := by
    unfold Site.put Site.ask
    cases Store.append s.row.table s.row w.site.store with
    | mk answer store =>
      cases answer with
      | ok stored => simp [Site.heard, Site.raised, Site.note, Notice.alert?]
      | error f => rfl
  unfold complete Engine.complete
  cases h : w.site.put s.row.table s.row with
  | mk answer site =>
    rw [h] at hput
    cases answer <;> exact w.reckoning_of_heard _ _ hput

end Recovery

namespace Work

variable {σ α : Type}

theorem keeps_note {n : Notice} (h : n.alert? = none) : Keeps Running.reckoning (note n : Work σ Unit) :=
  fun w => w.reckoning_note h

theorem keeps_ask (f : σ → Except Failure α × σ) : Keeps Running.reckoning (ask f) := fun _ => rfl

theorem keeps_engage (draws : Draws) (entry : Entry) :
    Keeps Running.reckoning (engage draws entry : Work σ Errand) := by
  cases entry with
  | signal dedupeKey signal =>
    intro w
    rw [engage_signal]
    split
    · rfl
    · exact w.reckoning_note rfl
  | deliberation d => exact (keeps_requireCorrelation (fun _ => keeps_note) d.correlationId).bind fun _ => .pure _
  | execution e => exact (keeps_requireCorrelation (fun _ => keeps_note) e.correlationId).bind fun _ => .pure _
  | event e => exact (keeps_requireExecution (fun _ => keeps_note) e.executionId).bind fun _ => .pure _

/-- What is refused before any attempt is not refused in a way that may pass. -/
theorem not_passing_of_vet {caller : Caller} {request : Request} {f : Failure} {w w' : Running σ}
    (h : vet caller request w = (.error f, w')) : ¬ f.Passing := by
  rcases error_of_vet h with hcode | ⟨action, rfl⟩
  · exact Failure.not_passing_of_code hcode
  · exact nofun

theorem not_passing_of_engage {draws : Draws} {entry : Entry} {f : Failure} {w w' : Running σ}
    (h : engage draws entry w = (.error f, w')) : ¬ f.Passing := by
  cases entry with
  | signal dedupeKey signal =>
    rw [engage_signal] at h
    cases hreserve : w.ledger.index.reserveSignal dedupeKey draws.correlations with
    | ok p => rw [hreserve] at h; cases h
    | error f' =>
      rw [hreserve] at h
      cases h
      rcases Index.reserveSignal_eq_error hreserve with ⟨rfl, -⟩ | ⟨rfl, -⟩ <;> exact nofun
  | deliberation d =>
    rw [engage_deliberation] at h
    split at h <;> cases h
    exact nofun
  | execution x =>
    rw [engage_execution] at h
    split at h <;> cases h
    exact nofun
  | event x =>
    rw [engage_event] at h
    split at h <;> cases h
    exact nofun

end Work

/-! ## Verifications -/

/-- A break is found in the table that is verified. -/
theorem Chain.table_of_verify {t : Table} {rows : List Row} {b : Break} (h : verify t rows = .broken b) :
    b.table = t := by
  have hfrom (before : Tail) (rows : List Row) (h : verifyFrom t before rows = .broken b) : b.table = t := by
    induction rows generalizing before with
    | nil => cases h
    | cons r rows ih =>
      rw [verifyFrom] at h
      split at h
      · exact ih _ h
      · cases h
        rfl
  exact hfrom _ _ h

namespace Work

variable {σ : Type} [Store σ]

/-- What comes to pass while the chains of these tables are verified, one after the other, up to the first
that cannot be read. -/
def verifications : List Table → Running σ → List Occurrence
  | [], _ => []
  | t :: ts, w =>
    match verifyChain t w with
    | (.ok v, w) => .verified t v :: verifications ts w
    | (.error _, _) => []

/-- To verify is not to append. -/
theorem filterMap_answer?_verifications (ts : List Table) (w : Running σ) :
    (verifications ts w).filterMap Occurrence.answer? = [] := by
  induction ts generalizing w with
  | nil => rfl
  | cons t ts ih =>
    rw [verifications]
    split
    · exact ih _
    · rfl

theorem reckoning_verifyChain (t : Table) (w : Running σ) :
    (verifyChain t w).2.reckoning = w.reckoning.after (verifications [t] w) := by
  rw [verifications, verifyChain_apply]
  cases (Store.scan t w.site.store).1 with
  | error f => exact (Reckoning.after_nil _).symm
  | ok rows =>
    dsimp only
    cases hv : Chain.verify t rows with
    | intact u tail =>
      simp only [verifications, Reckoning.after_intact]
      exact Running.reckoning_note _ rfl
    | broken b =>
      simp only [verifications, Running.reckoning_raise, Reckoning.after_singleton]
      rw [Running.reckoning_note _ rfl, Running.reckoning_lock, Running.reckoning_store]
      simp [Reckoning.raise, Chain.table_of_verify hv]

theorem verifications_cons (t : Table) (ts : List Table) (w : Running σ) :
    verifications (t :: ts) w =
      match verifyChain t w with
      | (.ok v, w') => .verified t v :: verifications ts w'
      | (.error _, _) => [] := rfl

/-- Chain after chain, until one cannot be read. -/
theorem reckoning_mapM_verifyChain (ts : List Table) (w : Running σ) :
    ((ts.mapM verifyChain : Work σ _) w).2.reckoning = w.reckoning.after (verifications ts w) := by
  induction ts generalizing w with
  | nil => exact (Reckoning.after_nil _).symm
  | cons t ts ih =>
    have hfirst := reckoning_verifyChain t w
    rw [verifications_cons] at hfirst ⊢
    rw [List.mapM_cons, bind_apply]
    cases h : verifyChain t w with
    | mk answer w' =>
      rw [h] at hfirst
      cases answer with
      | error f => exact hfirst
      | ok v =>
        have hrest := ih w'
        rw [show w'.reckoning = w.reckoning.after [.verified t v] from hfirst, ← Reckoning.after_cons] at hrest
        dsimp only
        rw [bind_apply]
        cases hm : (ts.mapM verifyChain : Work σ _) w' with
        | mk answers w'' =>
          rw [hm] at hrest
          cases answers <;> exact hrest

/-- If every chain can be read, what comes to pass is what is answered. -/
theorem verifications_of_mapM {ts : List Table} {vs : List Chain.Verification} {w w' : Running σ}
    (h : (ts.mapM verifyChain : Work σ _) w = (.ok vs, w')) : verifications ts w = ts.zipWith .verified vs := by
  induction ts generalizing w vs with
  | nil => rfl
  | cons t ts ih =>
    rw [List.mapM_cons] at h
    obtain ⟨v, w₁, hfirst, h⟩ := apply_of_bind_eq_ok h
    obtain ⟨rest, w₂, hrest, h⟩ := apply_of_bind_eq_ok h
    cases h
    rw [verifications_cons, hfirst, List.zipWith_cons_cons, ← ih hrest]

omit [Store σ] in
/-- Every change is refused, which is counted by its cause. -/
theorem mutate_apply (m : Mutation) (w : Running σ) :
    mutate m w = (.error m.refusal.failure,
      (w.note (.mutationRejected m)).count (·.rejection m.refusal.failure.label)) := rfl

omit [Store σ] in
theorem reckoning_mutate (m : Mutation) (w : Running σ) :
    (mutate m w).2.reckoning = w.reckoning.after [.refused m.refusal.failure] := by
  have hnote : (w.note (.mutationRejected m)).reckoning = w.reckoning := w.reckoning_note rfl
  rw [mutate_apply, Reckoning.after_singleton, ← hnote]
  simp
  rfl

/-! ## Opening -/

omit [Store σ] in
theorem intact_of_requireIntact {vs : List Chain.Verification} {w w' : Running σ}
    (h : (requireIntact vs : Work σ Unit) w = (.ok (), w')) : w' = w ∧ ∀ v ∈ vs, v.break? = none := by
  induction vs with
  | nil => cases h; exact ⟨rfl, nofun⟩
  | cons v vs ih =>
    cases v with
    | intact t tail =>
      obtain ⟨hw, hvs⟩ := ih h
      exact ⟨hw, List.forall_mem_cons.2 ⟨rfl, hvs⟩⟩
    | broken b => cases h

/-- Chains that are found intact are not told of. -/
theorem after_zipWith_intact (x : Reckoning) (ts : List Table) {vs : List Chain.Verification}
    (h : ∀ v ∈ vs, v.break? = none) : x.after (ts.zipWith .verified vs) = x := by
  induction ts generalizing vs with
  | nil => simp
  | cons t ts ih =>
    cases vs with
    | nil => simp
    | cons v vs =>
      obtain ⟨hv, hvs⟩ := List.forall_mem_cons.1 h
      cases v with
      | intact u tail => rw [List.zipWith_cons_cons, Reckoning.after_cons, Reckoning.after_intact, ih hvs]
      | broken b => cases hv

theorem reckoning_takeUp {w w' : Running σ} (h : (takeUp : Work σ Unit) w = (.ok (), w')) :
    w'.reckoning = w.reckoning := by
  have hkeeps := keeps_recovery w.ledger.settings.chain.lockTimeout w.site
  unfold takeUp at h
  rw [bind_apply_ok (get_apply w), bind_apply_ok (outcome_apply _ w)] at h
  cases hr : recovery w.ledger.settings.chain.lockTimeout w.site with
  | mk answer site =>
    rw [hr] at h hkeeps
    cases answer with
    | ok found =>
      cases h
      exact w.reckoning_of_heard _ _ hkeeps
    | error f =>
      -- whatever the cause, the answer is a failure
      cases f with
      | chainBroken t position =>
        obtain ⟨v, w₁, -, h⟩ := apply_of_bind_eq_ok h
        cases h
      | _ => cases h

theorem reckoning_enter {w w' : Running σ} (h : (enter : Work σ Unit) w = (.ok (), w')) :
    w'.reckoning = w.reckoning := by
  rw [enter_apply] at h
  cases htake : (takeUp : Work σ Unit) w with
  | mk answer w₁ =>
    rw [htake] at h
    cases answer with
    | ok _ =>
      cases h
      exact (w₁.reckoning_note rfl).trans (reckoning_takeUp htake)
    | error f => cases h

/-- A ledger that was opened has told of nothing: had a chain not verified, it would not have been. -/
theorem reckoning_startUp {w w' : Running σ} (h : (startUp : Work σ Unit) w = (.ok (), w')) :
    w'.reckoning = w.reckoning := by
  cases hon : w.ledger.settings.verifyOnOpen with
  | false =>
    rw [startUp_unverified hon] at h
    exact reckoning_enter h
  | true =>
    rw [startUp_verified hon] at h
    obtain ⟨vs, w₁, hverify, hrest⟩ := apply_of_bind_eq_ok h
    obtain ⟨⟨⟩, w₂, hrequire, henter⟩ := apply_of_bind_eq_ok hrest
    obtain ⟨rfl, hvs⟩ := intact_of_requireIntact hrequire
    have hverified := reckoning_mapM_verifyChain Table.all w
    rw [show Table.all.mapM verifyChain w = _ from hverify, verifications_of_mapM hverify,
      after_zipWith_intact _ _ hvs] at hverified
    exact (reckoning_enter henter).trans hverified

end Work

theorem Ledger.reckoning_of_opened {σ : Type} [Store σ] {settings : Settings} {sink : Sink} {site site' : Site σ}
    {ledger : Ledger} (h : opened settings sink site = (.ok ledger, site')) :
    (⟨ledger, site'⟩ : Running σ).reckoning = (⟨fresh settings sink, site⟩ : Running σ).reckoning := by
  unfold opened at h
  cases hstart : (Work.startUp : Work σ Unit) ⟨fresh settings sink, site⟩ with
  | mk answer w =>
    rw [hstart] at h
    cases answer with
    | ok _ => cases h; exact Work.reckoning_startUp hstart
    | error f => cases h

end TradeLedger

/-
Two ledgers side by side. Programs agree along a relation of states if they come from related states
to the same answer and to related states again. Whatever a ledger does agrees along `Alike`, which
leaves out what is only counted and logged, in which order the index came to know what it knows, and
every alert before some moment; so ledgers that are alike answer alike, and stay so.

One ledger may verify its chains when it is opened and the other not: nothing it does once it is open
depends on that.
-/
import TradeLedger.Ledger.Opening
import TradeLedger.Proofs.Index
import TradeLedger.Proofs.Ledger.Work

namespace TradeLedger

/-! ## Programs side by side -/

/-- The same answer, and related states. -/
structure Paired {τ α : Type} (R : τ → τ → Prop) (x y : α × τ) : Prop where
  answer : x.1 = y.1
  state : R x.2 y.2

namespace Paired

variable {τ α : Type} {R : τ → τ → Prop}

theorem of {a : α} {w w' : τ} (h : R w w') : Paired R (a, w) (a, w') := ⟨rfl, h⟩

theorem cases {x y : α × τ} (h : Paired R x y) : ∃ a w w', x = (a, w) ∧ y = (a, w') ∧ R w w' :=
  ⟨x.1, x.2, y.2, rfl, Prod.ext h.answer.symm rfl, h.state⟩

end Paired

/-- From related states both programs come to the same answer, and to related states. -/
def Agree {τ α : Type} (R : τ → τ → Prop) (x y : ExceptT Failure (StateM τ) α) : Prop :=
  ∀ ⦃w w'⦄, R w w' → Paired R (x w) (y w')

namespace Agree

variable {τ α β : Type} {R : τ → τ → Prop}

theorem pure (a : α) : Agree R (Pure.pure a) (Pure.pure a) := fun _ _ h => ⟨rfl, h⟩

theorem throw (f : Failure) : Agree R (MonadExcept.throw f : ExceptT Failure (StateM τ) α) (MonadExcept.throw f) :=
  fun _ _ h => ⟨rfl, h⟩

theorem modify {f : τ → τ} (h : ∀ w w', R w w' → R (f w) (f w')) :
    Agree R (MonadStateOf.modifyGet fun w => ((), f w)) (MonadStateOf.modifyGet fun w => ((), f w)) :=
  fun w w' hw => ⟨rfl, h w w' hw⟩

theorem bind {x y : ExceptT Failure (StateM τ) α} {f g : α → ExceptT Failure (StateM τ) β} (h : Agree R x y)
    (hf : ∀ a, Agree R (f a) (g a)) : Agree R (x >>= f) (y >>= g) := by
  intro w w' hw
  obtain ⟨r, v, v', hx, hy, hv⟩ := (h hw).cases
  rw [bind_apply, bind_apply, hx, hy]
  cases r with
  | ok a => exact hf a hv
  | error e => exact ⟨rfl, hv⟩

/-- What depends on the state must agree wherever the states are related. -/
theorem get_bind {f g : τ → ExceptT Failure (StateM τ) β} (h : ∀ w w', R w w' → Agree R (f w) (g w')) :
    Agree R (get >>= f) (get >>= g) := by
  intro w w' hw
  exact h w w' hw hw

theorem mapM {f : α → ExceptT Failure (StateM τ) β} (hf : ∀ a, Agree R (f a) (f a)) (xs : List α) :
    Agree R (xs.mapM f) (xs.mapM f) := by
  induction xs with
  | nil => rw [List.mapM_nil]; exact .pure _
  | cons a xs ih =>
    rw [List.mapM_cons]
    exact (hf a).bind fun b => ih.bind fun bs => .pure _

theorem forM {f : α → ExceptT Failure (StateM τ) Unit} (hf : ∀ a, Agree R (f a) (f a)) (xs : List α) :
    Agree R (xs.forM f) (xs.forM f) := by
  induction xs with
  | nil => exact .pure _
  | cons a xs ih => exact (hf a).bind fun _ => ih

theorem foldlM {f : β → α → ExceptT Failure (StateM τ) β} (hf : ∀ b a, Agree R (f b a) (f b a)) (xs : List α) (b : β) :
    Agree R (xs.foldlM f b) (xs.foldlM f b) := by
  induction xs generalizing b with
  | nil => exact .pure _
  | cons a xs ih =>
    rw [List.foldlM_cons]
    exact (hf b a).bind fun b => ih b

end Agree

/-! ## Indexes that know the same -/

namespace Index

/-- The same stands under every identifier and every dedupe key, and the same executions are known. -/
structure Same (x y : Index) : Prop where
  correlations : ∀ id, x.correlations.get? id = y.correlations.get? id
  dedupeKeys : ∀ key, x.dedupeKeys.get? key = y.dedupeKeys.get? key
  executions : ∀ id, x.hasExecution id = y.hasExecution id

namespace Same

variable {x y : Index}

theorem refl (x : Index) : x.Same x := ⟨fun _ => rfl, fun _ => rfl, fun _ => rfl⟩

theorem lookup (h : x.Same y) (key : String) : x.lookup key = y.lookup key := by
  rw [Index.lookup, Index.lookup, h.dedupeKeys]

theorem requireCorrelation (h : x.Same y) (id : Uuid) : x.requireCorrelation id = y.requireCorrelation id := by
  unfold Index.requireCorrelation Index.hasCorrelation
  rw [h.correlations]

theorem requireExecution (h : x.Same y) (id : Uuid) : x.requireExecution id = y.requireExecution id := by
  unfold Index.requireExecution
  rw [h.executions]

theorem restore (h : x.Same y) (key : String) (id : Uuid) : (x.restore key id).Same (y.restore key id) where
  correlations i := by rw [correlations_restore, correlations_restore, h.correlations]
  dedupeKeys k := by rw [dedupeKeys_restore, dedupeKeys_restore, h.dedupeKeys]
  executions := h.executions

theorem release (h : x.Same y) (res : Reservation) : (x.release res).Same (y.release res) where
  correlations i := by rw [correlations_release, correlations_release, h.correlations]
  dedupeKeys k := by rw [dedupeKeys_release, dedupeKeys_release, h.dedupeKeys]
  executions := h.executions

theorem registerExecution (h : x.Same y) (id : Uuid) : (x.registerExecution id).Same (y.registerExecution id) where
  correlations i := by rw [correlations_registerExecution, correlations_registerExecution, h.correlations]
  dedupeKeys k := by rw [dedupeKeys_registerExecution, dedupeKeys_registerExecution, h.dedupeKeys]
  executions i := by
    rw [Bool.eq_iff_iff, hasExecution_registerExecution, hasExecution_registerExecution, h.executions]

/-- The same of the identifiers drawn is the first that is free. -/
theorem reserveFirst (h : x.Same y) (draws : List Uuid) :
    (x.reserveFirst draws = none ∧ y.reserveFirst draws = none) ∨
      ∃ id x' y', x.reserveFirst draws = some (id, x') ∧ y.reserveFirst draws = some (id, y') ∧ x'.Same y' := by
  induction draws with
  | nil => exact .inl ⟨rfl, rfl⟩
  | cons d draws ih =>
    have htaken : x.correlations.contains d = y.correlations.contains d := by
      rw [Assoc.contains, Assoc.contains, h.correlations]
    unfold Index.reserveFirst reserve
    rw [htaken]
    split_ifs with hd
    · exact ih
    · refine .inr ⟨d, _, _, rfl, rfl, fun i => ?_, h.dedupeKeys, h.executions⟩
      rw [Assoc.get?_set, Assoc.get?_set, h.correlations]

/-- Both refuse a reservation for the same cause, or both make the same. -/
theorem reserveSignal (h : x.Same y) (key : String) (draws : List Uuid) :
    (∃ f, x.reserveSignal key draws = .error f ∧ y.reserveSignal key draws = .error f) ∨
      ∃ res x' y', x.reserveSignal key draws = .ok (res, x') ∧ y.reserveSignal key draws = .ok (res, y') ∧
        x'.Same y' := by
  have htaken : x.dedupeKeys.contains key = y.dedupeKeys.contains key := by
    rw [Assoc.contains, Assoc.contains, h.dedupeKeys]
  have hheld : ({ x with dedupeKeys := x.dedupeKeys.set key .held } : Index).Same
      { y with dedupeKeys := y.dedupeKeys.set key .held } := by
    refine ⟨h.correlations, fun k => ?_, h.executions⟩
    rw [Assoc.get?_set, Assoc.get?_set, h.dedupeKeys]
  unfold Index.reserveSignal
  rw [htaken]
  split_ifs with hkey
  · exact .inl ⟨_, rfl, rfl⟩
  · rcases hheld.reserveFirst draws with ⟨hx, hy⟩ | ⟨id, x', y', hx, hy, hsame⟩
    · rw [hx, hy]
      exact .inl ⟨_, rfl, rfl⟩
    · rw [hx, hy]
      exact .inr ⟨_, x', y', rfl, rfl, hsame⟩

end Same

end Index

/-! ## Sites -/

/-- The same store and the same clock; and what reached the receivers behind these alerts is the same. -/
structure Site.Alike {σ : Type} (before before' : List Alert) (s s' : Site σ) : Prop where
  store : s.store = s'.store
  now : s.now = s'.now
  alerts : ∃ more, s.alerts = before ++ more ∧ s'.alerts = before' ++ more

section Sites

variable {σ α : Type} {before before' : List Alert} {s s' : Site σ}

namespace Site.Alike

theorem note (h : s.Alike before before' s') (n n' : Notice) : (s.note n).Alike before before' (s'.note n') :=
  ⟨h.store, h.now, h.alerts⟩

theorem raise (h : s.Alike before before' s') (sink : Sink) (a : Alert) :
    (s.raise sink a).Alike before before' (s'.raise sink a) := by
  obtain ⟨more, hs, hs'⟩ := h.alerts
  cases sink with
  | channel =>
    refine ⟨h.store, h.now, more ++ [a], ?_, ?_⟩
    · rw [← List.append_assoc, ← hs]; rfl
    · rw [← List.append_assoc, ← hs']; rfl
  | dropped | log => exact ⟨h.store, h.now, h.alerts⟩

theorem ask (h : s.Alike before before' s') (f : σ → Except Failure α × σ) :
    Paired (Site.Alike before before') (s.ask f) (s'.ask f) := by
  unfold Site.ask
  rw [h.store]
  exact ⟨rfl, rfl, h.now, h.alerts⟩

theorem put [Store σ] (h : s.Alike before before' s') (permit : Table) (r : Row) :
    Paired (Site.Alike before before') (s.put permit r) (s'.put permit r) := by
  obtain ⟨answer, v, v', hv, hv', hs⟩ := (h.ask (Store.append permit r)).cases
  unfold Site.put
  rw [hv, hv']
  cases answer with
  | ok stored => exact ⟨rfl, hs.note _ _⟩
  | error f => exact ⟨rfl, hs⟩

end Site.Alike

namespace Act

theorem agree_note (n : Notice) : Agree (Site.Alike before before') (note n : Act σ Unit) (note n) :=
  Agree.modify fun _ _ h => h.note n n

theorem agree_ask (f : σ → Except Failure α × σ) : Agree (Site.Alike before before') (ask f : Act σ α) (ask f) :=
  fun _ _ h => h.ask f

end Act

theorem Index.agree_found (r : Row) : Agree (Site.Alike before before') (found r : Act σ Record) (found r) := by
  unfold found
  split
  · exact .pure _
  · exact (Act.agree_note _).bind fun _ => .throw _

section Recovery

variable [Store σ]

theorem Engine.agree_recover (lockTimeout : Duration) :
    Agree (Site.Alike before before') (recover lockTimeout : Act σ Engine) (recover lockTimeout) := by
  refine Agree.foldlM (fun e t => (Act.agree_ask _).bind fun last => ?_) _ _
  split
  · exact .pure _
  · split
    · exact (Act.agree_note _).bind fun _ => .pure _
    · exact (Act.agree_note _).bind fun _ => .throw _

theorem Index.agree_recover : Agree (Site.Alike before before') (recover : Act σ Index) recover := by
  refine (Act.agree_ask _).bind fun signals => (Agree.foldlM (fun x r => ?_) _ _).bind fun x =>
    (Act.agree_ask _).bind fun executions => Agree.foldlM (fun x r => ?_) _ _
  · refine (Index.agree_found r).bind fun c => ?_
    split <;> exact .pure _
  · exact (Index.agree_found r).bind fun c => .pure _

end Recovery

end Sites

/-! ## Ledgers at work -/

/-- What cannot be told apart by anything a ledger answers from now on. -/
structure Running.Alike {σ : Type} (before before' : List Alert) (w w' : Running σ) : Prop where
  settings : ∃ verifyOnOpen, w'.ledger.settings = { w.ledger.settings with verifyOnOpen }
  sink : w.ledger.sink = w'.ledger.sink
  engine : w.ledger.engine = w'.ledger.engine
  index : w.ledger.index.Same w'.ledger.index
  site : w.site.Alike before before' w'.site

section Ledgers

variable {σ α : Type} {before before' : List Alert} {w w' : Running σ}

namespace Running.Alike

theorem retry_eq (h : w.Alike before before' w') : w.ledger.settings.retry = w'.ledger.settings.retry := by
  obtain ⟨verifyOnOpen, hsettings⟩ := h.settings
  rw [hsettings]

theorem chain_eq (h : w.Alike before before' w') : w.ledger.settings.chain = w'.ledger.settings.chain := by
  obtain ⟨verifyOnOpen, hsettings⟩ := h.settings
  rw [hsettings]

theorem note (h : w.Alike before before' w') (n n' : Notice) : (w.note n).Alike before before' (w'.note n') :=
  ⟨h.settings, h.sink, h.engine, h.index, h.site.note n n'⟩

theorem count (h : w.Alike before before' w') (f f' : Metrics → Metrics) :
    (w.count f).Alike before before' (w'.count f') :=
  ⟨h.settings, h.sink, h.engine, h.index, h.site⟩

theorem raise (h : w.Alike before before' w') (a : Alert) : (w.raise a).Alike before before' (w'.raise a) := by
  refine ⟨h.settings, h.sink, h.engine, h.index, ?_⟩
  show (w.site.raise w.ledger.sink a).Alike before before' (w'.site.raise w'.ledger.sink a)
  rw [h.sink]
  exact h.site.raise _ a

theorem withEngine (h : w.Alike before before' w') (e : Engine) :
    Running.Alike before before' { w with ledger.engine := e } { w' with ledger.engine := e } :=
  ⟨h.settings, h.sink, rfl, h.index, h.site⟩

theorem withIndex (h : w.Alike before before' w') {x y : Index} (hxy : x.Same y) :
    Running.Alike before before' { w with ledger.index := x } { w' with ledger.index := y } :=
  ⟨h.settings, h.sink, h.engine, hxy, h.site⟩

theorem withSite (h : w.Alike before before' w') {s s' : Site σ} (hs : s.Alike before before' s') :
    Running.Alike before before' { w with site := s } { w' with site := s' } :=
  ⟨h.settings, h.sink, h.engine, h.index, hs⟩

end Running.Alike

namespace Work

theorem agree_note (n : Notice) : Agree (Running.Alike before before') (note n : Work σ Unit) (note n) :=
  Agree.modify fun _ _ h => h.note n n

theorem agree_count (f : Metrics → Metrics) :
    Agree (Running.Alike before before') (modify (·.count f) : Work σ Unit) (modify (·.count f)) :=
  Agree.modify fun _ _ h => h.count f f

theorem agree_ask (f : σ → Except Failure α × σ) :
    Agree (Running.Alike before before') (ask f : Work σ α) (ask f) := by
  intro w w' h
  obtain ⟨r, s, s', hs, hs', halike⟩ := (h.site.ask f).cases
  show Paired _ (let (r, site) := w.site.ask f; (r, { w with site }))
    (let (r, site) := w'.site.ask f; (r, { w' with site }))
  rw [hs, hs']
  exact ⟨rfl, h.withSite halike⟩

theorem agree_outcome {act act' : Act σ α} (hact : Agree (Site.Alike before before') act act') :
    Agree (Running.Alike before before') (outcome act) (outcome act') := by
  intro w w' h
  rw [outcome_apply, outcome_apply, (hact h.site).answer]
  exact ⟨rfl, h.withSite (hact h.site).state⟩

/-! ## Requests -/

theorem agree_vet (caller : Caller) (request : Request) :
    Agree (Running.Alike before before') (vet caller request : Work σ Entry) (vet caller request) := by
  refine Agree.bind ?_ fun _ => ?_
  · unfold authorize
    split
    · exact .pure ()
    · exact (agree_note _).bind fun _ => .throw _
  · unfold check
    split
    · exact .pure _
    · exact (Agree.forM agree_note _).bind fun _ => .throw _

theorem agree_requireCorrelation (id : Uuid) :
    Agree (Running.Alike before before') (requireCorrelation id : Work σ Unit) (requireCorrelation id) := by
  refine Agree.get_bind fun w w' h => ?_
  rw [h.index.requireCorrelation]
  split
  · exact .pure ()
  · exact (agree_note _).bind fun _ => .throw _

theorem agree_requireExecution (id : Uuid) :
    Agree (Running.Alike before before') (requireExecution id : Work σ Unit) (requireExecution id) := by
  refine Agree.get_bind fun w w' h => ?_
  rw [h.index.requireExecution]
  split
  · exact .pure ()
  · exact (agree_note _).bind fun _ => .throw _

theorem agree_reserve (dedupeKey : String) (draws : List Uuid) :
    Agree (Running.Alike before before') (reserve dedupeKey draws : Work σ Reservation) (reserve dedupeKey draws) := by
  refine Agree.get_bind fun v v' h => ?_
  rcases h.index.reserveSignal dedupeKey draws with ⟨f, hx, hy⟩ | ⟨res, x, y, hx, hy, hxy⟩
  · rw [hx, hy]
    exact (agree_note _).bind fun _ => .throw _
  · rw [hx, hy]
    exact fun w w' hw => ⟨rfl, hw.withIndex hxy⟩

theorem agree_engage (draws : Draws) (entry : Entry) :
    Agree (Running.Alike before before') (engage draws entry : Work σ Errand) (engage draws entry) := by
  cases entry with
  | signal dedupeKey signal => exact (agree_reserve _ _).bind fun _ => .pure _
  | deliberation d => exact (agree_requireCorrelation _).bind fun _ => .pure _
  | execution e => exact (agree_requireCorrelation _).bind fun _ => .pure _
  | event e => exact (agree_requireExecution _).bind fun _ => .pure _

/-! ## Queries -/

theorem agree_mutate (m : Mutation) : Agree (Running.Alike before before') (mutate m : Work σ Empty) (mutate m) :=
  (Agree.forM agree_note _).bind fun _ => (agree_count _).bind fun _ => .throw _

theorem agree_record (r : Row) : Agree (Running.Alike before before') (record r : Work σ Record) (record r) := by
  unfold record
  split
  · exact .pure _
  · exact .throw _

section Stores

variable [Store σ]

theorem agree_linked (t : Table) (link : Uuid) :
    Agree (Running.Alike before before') (linked t link : Work σ (List Record)) (linked t link) := by
  have hat (position : UInt64) :
      Agree (Running.Alike before before') (recordAt t position : Work σ Record) (recordAt t position) := by
    refine (agree_ask _).bind fun r => ?_
    split
    · exact agree_record _
    · exact .throw _
  exact (agree_ask _).bind fun positions => Agree.mapM hat positions

theorem agree_byCorrelation (id : Uuid) :
    Agree (Running.Alike before before') (byCorrelation id : Work σ (Option Dossier)) (byCorrelation id) := by
  refine (agree_linked _ _).bind fun signals => ?_
  split
  · exact .pure _
  · exact (agree_linked _ _).bind fun _ => (agree_linked _ _).bind fun _ => .pure _

theorem agree_byDedupeKey (dedupeKey : String) :
    Agree (Running.Alike before before') (byDedupeKey dedupeKey : Work σ (Option Record)) (byDedupeKey dedupeKey) := by
  refine Agree.get_bind fun w w' h => ?_
  rw [h.index.lookup]
  split
  · exact .pure _
  · exact (agree_linked _ _).bind fun _ => .pure _

theorem agree_records (t : Table) :
    Agree (Running.Alike before before') (records t : Work σ (List Record)) (records t) :=
  (agree_ask _).bind fun rows => Agree.mapM agree_record rows

theorem agree_verifyChain (t : Table) :
    Agree (Running.Alike before before') (verifyChain t : Work σ Chain.Verification) (verifyChain t) := by
  refine (agree_ask _).bind fun rows => ?_
  dsimp only
  split
  · exact (agree_note _).bind fun _ => .pure _
  · refine Agree.bind (Agree.modify fun w w' h => ?_) fun _ => (agree_note _).bind fun _ =>
      Agree.bind (Agree.modify fun w w' h => h.raise _) fun _ => .pure _
    exact ⟨h.settings, h.sink, h.engine, h.index, h.site⟩

theorem agree_verifyAll :
    Agree (Running.Alike before before') (verifyAll : Work σ (List Chain.Verification)) verifyAll :=
  Agree.mapM agree_verifyChain _

end Stores

/-! ## Opening -/

theorem agree_requireIntact (vs : List Chain.Verification) :
    Agree (Running.Alike before before') (requireIntact vs : Work σ Unit) (requireIntact vs) := by
  induction vs with
  | nil => exact .pure ()
  | cons v vs ih =>
    cases v with
    | intact t tail => exact ih
    | broken b => exact .throw _

section Stores

variable [Store σ]

theorem agree_takeUp : Agree (Running.Alike before before') (takeUp : Work σ Unit) takeUp := by
  refine Agree.get_bind fun v v' h => ?_
  rw [h.chain_eq]
  refine Agree.bind (agree_outcome ?_) fun r => ?_
  · exact (Engine.agree_recover _).bind fun _ => Index.agree_recover.bind fun _ => .pure _
  · split
    · exact Agree.modify fun w w' hw => ⟨hw.settings, hw.sink, rfl, .refl _, hw.site⟩
    · exact (agree_verifyChain _).bind fun v => .throw _
    · exact .throw _

/-- Ledgers that both verify their chains first, or both do not, start up alike. -/
theorem paired_startUp (h : w.Alike before before' w')
    (hverify : w.ledger.settings.verifyOnOpen = w'.ledger.settings.verifyOnOpen) :
    Paired (Running.Alike before before') ((startUp : Work σ Unit) w) ((startUp : Work σ Unit) w') := by
  have hafter : Agree (Running.Alike before before')
      (takeUp >>= fun _ => get >>= fun v => note (.opened v.ledger.settings.serviceName
        v.ledger.settings.backend.name v.ledger.index.committedCount) : Work σ Unit)
      (takeUp >>= fun _ => get >>= fun v => note (.opened v.ledger.settings.serviceName
        v.ledger.settings.backend.name v.ledger.index.committedCount)) :=
    agree_takeUp.bind fun _ => Agree.get_bind fun v v' _ w w' hw => ⟨rfl, hw.note _ _⟩
  unfold startUp
  rw [bind_apply_ok (get_apply w), bind_apply_ok (get_apply w'), hverify]
  split
  · exact (agree_verifyAll.bind fun vs => (agree_requireIntact vs).bind fun _ => hafter) h
  · exact hafter h

end Stores

end Work

/-- Over sites that are alike a ledger opens alike, or fails to open for the same cause. -/
theorem Ledger.opened_alike [Store σ] {s s' : Site σ} (hs : s.Alike before before' s') (settings : Settings)
    (sink : Sink) :
    (∃ w w' : Running σ, opened settings sink s = (.ok w.ledger, w.site) ∧
      opened settings sink s' = (.ok w'.ledger, w'.site) ∧ w.Alike before before' w') ∨
    ∃ f v v', opened settings sink s = (.error f, v) ∧ opened settings sink s' = (.error f, v') ∧
      v.Alike before before' v' := by
  have hstart : Running.Alike before before' { ledger := fresh settings sink, site := s }
      { ledger := fresh settings sink, site := s' } := ⟨⟨_, rfl⟩, rfl, rfl, .refl _, hs⟩
  obtain ⟨r, w, w', hw, hw', halike⟩ := (Work.paired_startUp hstart rfl).cases
  unfold opened
  rw [hw, hw']
  cases r with
  | ok _ => exact .inl ⟨w, w', rfl, rfl, halike⟩
  | error f => exact .inr ⟨f, _, _, rfl, rfl, halike.site⟩

end Ledgers

end TradeLedger

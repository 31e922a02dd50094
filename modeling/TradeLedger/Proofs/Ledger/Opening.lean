/-
A ledger opens on rows that are linked. The engine takes up each chain where its rows end, and the
index is what restoring every row, one after the other, makes of the empty one.
-/
import TradeLedger.Ledger.Opening
import TradeLedger.Proofs.Chain.Linked
import TradeLedger.Proofs.Ledger.Work

namespace TradeLedger

/-! ## The index of rows -/

namespace Index

/-- What is known with the row of a signal. -/
def restoreRow (x : Index) (r : Row) : Index :=
  match r.record with
  | .ok { body := .signal s, .. } => x.restore s.dedupeKey s.correlationId
  | _ => x

/-- What is known with the row of an execution. -/
def registerRow (x : Index) (r : Row) : Index :=
  match r.record with
  | .ok c => x.registerExecution c.recordId
  | .error _ => x

/-- What is known of rows in memory. -/
def ofMemory (m : Memory) : Index :=
  (m.rows.get .orderExecutions).foldl registerRow ((m.rows.get .signals).foldl restoreRow empty)

theorem recoverSignal_apply {r : Row} {c : Record} (h : r.record = .ok c) (x : Index) (site : Site Flaky) :
    (recoverSignal x r : Act Flaky Index) site = (.ok (x.restoreRow r), site) := by
  have hfound : (found r : Act Flaky Record) site = (.ok c, site) := by
    unfold found; rw [h]; rfl
  unfold recoverSignal
  rw [bind_apply_ok hfound, restoreRow, h]
  cases c with
  | mk table position recordId createdAt digest body => cases body <;> rfl

theorem recoverExecution_apply {r : Row} {c : Record} (h : r.record = .ok c) (x : Index) (site : Site Flaky) :
    (recoverExecution x r : Act Flaky Index) site = (.ok (x.registerRow r), site) := by
  have hfound : (found r : Act Flaky Record) site = (.ok c, site) := by
    unfold found; rw [h]; rfl
  unfold recoverExecution
  rw [bind_apply_ok hfound, registerRow, h]
  rfl

theorem foldlM_apply {f : Index → Row → Act Flaky Index} {g : Index → Row → Index} {rows : List Row}
    (h : ∀ r ∈ rows, ∀ x site, f x r site = (.ok (g x r), site)) (x : Index) (site : Site Flaky) :
    (rows.foldlM f x) site = (.ok (rows.foldl g x), site) := by
  induction rows generalizing x with
  | nil => rfl
  | cons r rows ih =>
    rw [List.foldlM_cons, bind_apply_ok (h r List.mem_cons_self x site), List.foldl_cons]
    exact ih (fun r hr => h r (List.mem_cons_of_mem _ hr)) _

/-- The index of rows that can be read is recovered from them. -/
theorem recover_apply {site : Site Flaky}
    (h : ∀ t, ∀ r ∈ site.store.memory.rows.get t, ∃ c, r.record = .ok c) :
    (recover : Act Flaky Index) site = (.ok (ofMemory site.store.memory), site) := by
  have hscan (t : Table) :
      (Act.ask (Store.scan t) : Act Flaky (List Row)) site = (.ok (site.store.memory.rows.get t), site) := rfl
  unfold recover
  rw [bind_apply_ok (hscan .signals), bind_apply_ok (foldlM_apply (fun r hr x site => ?_) _ _),
    bind_apply_ok (hscan .orderExecutions), foldlM_apply (fun r hr x site => ?_)]
  · rfl
  · obtain ⟨c, hc⟩ := h .orderExecutions r hr
    exact recoverExecution_apply hc x site
  · obtain ⟨c, hc⟩ := h .signals r hr
    exact recoverSignal_apply hc x site

end Index

/-! ## The ends of the chains -/

/-- A store that answers what the last row of a table is from the rows that `view` shows of it, and
stays as it is. -/
def Store.Ends {σ : Type} [Store σ] (view : σ → PerTable (List Row)) : Prop :=
  ∀ t s, Store.tail t s = (.ok ((view s).get t).getLast?, s)

namespace Engine

section Recovery

variable {σ : Type} [Store σ] {view : σ → PerTable (List Row)} {tails : PerTable Chain.Tail} {site : Site σ}

/-- What only the log of a site tells apart. -/
def Beside (site site' : Site σ) : Prop := site'.store = site.store ∧ site'.now = site.now

/-- The end of linked rows is taken up, or there are no rows and nothing is. -/
theorem recoverTable_cases (hv : Store.Ends view) {t : Table} {tail : Chain.Tail}
    (h : Chain.Linked t ((view site.store).get t) tail) (e : Engine) :
    ∃ e' site', (recoverTable e t : Act σ Engine) site = (.ok e', site') ∧ Beside site site' ∧
      (e' = { e with tails := e.tails.set t tail } ∨ tail = .empty t ∧ e' = e) := by
  have hask : (Act.ask (Store.tail t) : Act σ (Option Row)) site =
      (.ok ((view site.store).get t).getLast?, site) := by
    show site.ask (Store.tail t) = _
    rw [Site.ask, hv]
  unfold recoverTable
  rw [bind_apply_ok hask]
  rcases h.tail_eq with ⟨hrows, htail⟩ | ⟨r, env, hlast, hdecode, hposition, htable, henv, htail⟩
  · rw [hrows]
    exact ⟨e, site, rfl, ⟨rfl, rfl⟩, .inr ⟨htail, rfl⟩⟩
  · have htailOf : tailOf? t r = some tail := by
      rw [tailOf?, hdecode]
      simp only [htable, henv, and_self, if_true]
      rw [htail, hposition]
    rw [hlast]
    simp only [htailOf]
    exact ⟨_, _, rfl, ⟨rfl, rfl⟩, .inl rfl⟩

theorem recoverTable_apply (hv : Store.Ends view) {t : Table}
    (h : Chain.Linked t ((view site.store).get t) (tails.get t)) (e : Engine) (he : e.tails.get t = .empty t) :
    ∃ site', (recoverTable e t : Act σ Engine) site =
        (.ok { e with tails := e.tails.set t (tails.get t) }, site') ∧ Beside site site' := by
  obtain ⟨e', site', hrun, hs, rfl | ⟨htail, rfl⟩⟩ := recoverTable_cases hv h e
  · exact ⟨site', hrun, hs⟩
  · exact ⟨site', by rw [htail, ← he, PerTable.set_get]; exact hrun, hs⟩

/-- The ends of these chains are taken up, and the others left as they are. -/
theorem foldlM_recoverTable (hv : Store.Ends view)
    (h : ∀ t, Chain.Linked t ((view site.store).get t) (tails.get t)) (ts : List Table) (hts : ts.Nodup) (e : Engine)
    (he : ∀ t ∈ ts, e.tails.get t = .empty t) {s : Site σ} (hs : Beside site s) :
    ∃ e' s', (ts.foldlM recoverTable e : Act σ Engine) s = (.ok e', s') ∧ Beside site s' ∧
      e'.held = e.held ∧ e'.lockTimeout = e.lockTimeout ∧
      ∀ t, e'.tails.get t = if t ∈ ts then tails.get t else e.tails.get t := by
  induction ts generalizing e s with
  | nil => exact ⟨e, s, rfl, hs, rfl, rfl, by simp⟩
  | cons t ts ih =>
    obtain ⟨hnot, hnodup⟩ := List.nodup_cons.1 hts
    obtain ⟨s₁, h₁, hs₁⟩ := recoverTable_apply hv (by rw [hs.1]; exact h t) e (he t List.mem_cons_self)
    obtain ⟨e₂, s₂, h₂, hs₂, hheld, htimeout, hget⟩ := ih hnodup { e with tails := e.tails.set t (tails.get t) }
      (fun u hu => by
        rw [PerTable.get_set_ne _ _ (ne_of_mem_of_not_mem hu hnot)]
        exact he u (List.mem_cons_of_mem _ hu))
      ⟨hs₁.1.trans hs.1, hs₁.2.trans hs.2⟩
    refine ⟨e₂, s₂, ?_, hs₂, hheld, htimeout, fun u => ?_⟩
    · rw [List.foldlM_cons, bind_apply_ok h₁, h₂]
    · rw [hget u]
      by_cases hu : u = t
      · subst hu
        rw [if_neg hnot, if_pos List.mem_cons_self, PerTable.get_set_self]
      · rw [PerTable.get_set_ne _ _ hu]
        simp only [List.mem_cons, hu, false_or]

/-- Over linked rows the engine takes up every chain where its rows end. -/
theorem recover_apply (hv : Store.Ends view) (h : ∀ t, Chain.Linked t ((view site.store).get t) (tails.get t))
    (lockTimeout : Duration) :
    ∃ site', (recover lockTimeout : Act σ Engine) site =
        (.ok ⟨tails, .ofFn fun _ => false, lockTimeout⟩, site') ∧ Beside site site' := by
  obtain ⟨e, s, hrun, hs, hheld, htimeout, hget⟩ := foldlM_recoverTable hv h Table.all (by decide)
    (fresh lockTimeout) (fun t _ => by rw [fresh, PerTable.get_ofFn]) (s := site) ⟨rfl, rfl⟩
  refine ⟨s, ?_, hs⟩
  -- every table is among those that are taken up
  have htails : e.tails = tails := PerTable.ext_get fun t => by rw [hget t, if_pos (Table.mem_all t)]
  cases e
  cases htails; cases hheld; cases htimeout
  exact hrun

end Recovery

end Engine

/-! ## Opening -/

/-- The rows of a chain can be read. -/
theorem Chain.Linked.readable {t : Table} {rows : List Row} {tail : Tail} (h : Linked t rows tail) :
    ∀ r ∈ rows, ∃ c, r.record = .ok c := by
  intro r hr
  obtain ⟨-, e, he, -⟩ := h.decodes r hr
  rw [Row.record, he]
  exact ⟨_, rfl⟩

theorem Flaky.ends : Store.Ends fun s : Flaky => s.memory.rows := fun _ _ => rfl

namespace Work

variable {tails : PerTable Chain.Tail} {w : Running Flaky}

theorem requireIntact_apply (ts : List Table) (w : Running Flaky) :
    (requireIntact (ts.map fun t => .intact t (tails.get t)) : Work Flaky Unit) w = (.ok (), w) := by
  induction ts with
  | nil => rfl
  | cons t ts ih => exact ih

theorem recovery_apply (site : Site Flaky) (h : ∀ t, Chain.Linked t (site.store.memory.rows.get t) (tails.get t))
    (lockTimeout : Duration) :
    ∃ site', (recovery lockTimeout : Act Flaky (Engine × Index)) site =
        (.ok (⟨tails, .ofFn fun _ => false, lockTimeout⟩, .ofMemory site.store.memory), site') ∧
      Engine.Beside site site' := by
  obtain ⟨site', he, hs⟩ := Engine.recover_apply Flaky.ends h lockTimeout
  refine ⟨site', ?_, hs⟩
  have hi : (Index.recover : Act Flaky Index) site' = (.ok (.ofMemory site.store.memory), site') := by
    rw [← hs.1]
    exact Index.recover_apply fun t r hr => (h t).readable r (by rw [← hs.1]; exact hr)
  unfold recovery
  rw [bind_apply_ok he, bind_apply_ok hi]
  rfl

/-- A ledger takes up linked rows where they end. -/
theorem takeUp_apply (h : ∀ t, Chain.Linked t (w.facts.memory.rows.get t) (tails.get t)) :
    ∃ w', (takeUp : Work Flaky Unit) w = (.ok (), w') ∧
      w'.facts = { w.facts with
        engine := ⟨tails, .ofFn fun _ => false, w.facts.settings.chain.lockTimeout⟩
        index := .ofMemory w.facts.memory } := by
  obtain ⟨site', hr, hs⟩ := recovery_apply w.site h w.facts.settings.chain.lockTimeout
  have houtcome : (outcome (recovery w.facts.settings.chain.lockTimeout) : Work Flaky _) w =
      (.ok (.ok (⟨tails, .ofFn fun _ => false, w.facts.settings.chain.lockTimeout⟩, .ofMemory w.facts.memory)),
        { w with site := site' }) := by
    rw [outcome_apply, hr]
    rfl
  unfold takeUp
  rw [bind_apply_ok (get_apply w)]
  refine ⟨_, bind_apply_ok houtcome, ?_⟩
  show (⟨_, _, _, _, _, site'.store.memory, site'.store.faults, site'.now⟩ : Facts) = _
  rw [hs.1, hs.2]
  rfl

/-- Takes up the chains and the index, and says so: all that happens behind the verification. -/
def enter {σ : Type} [Store σ] : Work σ Unit := do
  takeUp
  let ledger := (← get).ledger
  note (.opened ledger.settings.serviceName ledger.settings.backend.name ledger.index.committedCount)

theorem enter_apply {σ : Type} [Store σ] (w : Running σ) :
    enter w =
      match (takeUp : Work σ Unit) w with
      | (.ok _, w) =>
        (.ok (), w.note (.opened w.ledger.settings.serviceName w.ledger.settings.backend.name
          w.ledger.index.committedCount))
      | (.error f, w) => (.error f, w) := by
  unfold enter
  rw [bind_apply]
  cases (takeUp : Work σ Unit) w with
  | mk answer w' => cases answer <;> rfl

theorem startUp_unverified {σ : Type} [Store σ] {w : Running σ} (h : w.ledger.settings.verifyOnOpen = false) :
    startUp w = enter w := by
  unfold startUp
  rw [bind_apply_ok (get_apply w), h]
  rfl

theorem startUp_verified {σ : Type} [Store σ] {w : Running σ} (h : w.ledger.settings.verifyOnOpen = true) :
    startUp w = (verifyAll >>= fun vs => requireIntact vs >>= fun _ => enter : Work σ Unit) w := by
  unfold startUp
  rw [bind_apply_ok (get_apply w), h]
  rfl

theorem startUp_apply (h : ∀ t, Chain.Linked t (w.facts.memory.rows.get t) (tails.get t)) :
    ∃ w', (startUp : Work Flaky Unit) w = (.ok (), w') ∧
      w'.facts = { w.facts with
        engine := ⟨tails, .ofFn fun _ => false, w.facts.settings.chain.lockTimeout⟩
        index := .ofMemory w.facts.memory } := by
  -- what comes after the verification, from a state that it has only told about
  have hafter (w₁ : Running Flaky) (hw₁ : w₁.facts = w.facts) :
      ∃ w', (enter : Work Flaky Unit) w₁ = (.ok (), w') ∧
        w'.facts = { w.facts with
          engine := ⟨tails, .ofFn fun _ => false, w.facts.settings.chain.lockTimeout⟩
          index := .ofMemory w.facts.memory } := by
    rw [← hw₁] at h ⊢
    obtain ⟨w₂, htake, hw₂⟩ := takeUp_apply h
    rw [enter_apply, htake]
    exact ⟨_, rfl, by rw [Running.facts_note, hw₂]⟩
  cases hverify : w.ledger.settings.verifyOnOpen with
  | false =>
    rw [startUp_unverified hverify]
    exact hafter w rfl
  | true =>
    obtain ⟨w₁, hverified, hw₁⟩ := verifyAll_intact fun t => (h t).verify
    rw [startUp_verified hverify, bind_apply_ok hverified, bind_apply_ok (requireIntact_apply Table.all w₁)]
    exact hafter w₁ hw₁

end Work

/-- A ledger opens on linked rows: it takes up every chain where its rows end, knows what they say,
and is not locked. -/
theorem Ledger.opened_of_linked {tails : PerTable Chain.Tail} {site : Site Flaky}
    (h : ∀ t, Chain.Linked t (site.store.memory.rows.get t) (tails.get t)) (settings : Settings) (sink : Sink) :
    ∃ w : Running Flaky, opened settings sink site = (.ok w.ledger, w.site) ∧
      w.facts = {
        settings
        sink
        engine := ⟨tails, .ofFn fun _ => false, settings.chain.lockTimeout⟩
        index := .ofMemory site.store.memory
        locked := false
        memory := site.store.memory
        faults := site.store.faults
        now := site.now } := by
  obtain ⟨w, hstart, hw⟩ := Work.startUp_apply (w := { ledger := fresh settings sink, site }) h
  refine ⟨w, ?_, hw⟩
  rw [opened, hstart]

end TradeLedger

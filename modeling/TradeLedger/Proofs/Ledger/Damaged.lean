/-
Opening a ledger over whatever rows a store shows, however they were damaged.

A row of a chain that verifies has no fault, so behind a verification nothing is left to fail on. Without
one, a row that cannot be read has a chain verified: that of its table if it is the last there, and if
not, that of the table which is named beside its content.
-/
import TradeLedger.Proofs.Chain.FirstBreak
import TradeLedger.Proofs.Ledger.Faults
import TradeLedger.Proofs.Ledger.Reckoning

namespace TradeLedger

/-! ## Verification -/

/-- What is raised for a break. -/
def Chain.Break.alert (b : Break) : Alert := .chainIntegrity b.table b.position b.expected b.actual

/-- What verification says about the rows of a table. -/
def PerTable.verified (rows : PerTable (List Row)) (t : Table) : Chain.Verification := Chain.verify t (rows.get t)

/-- The breaks that are found in these tables, in their order. -/
def PerTable.breaks (rows : PerTable (List Row)) (ts : List Table) : List Chain.Break :=
  ts.filterMap fun t => (rows.verified t).break?

namespace Reckoning

/-- Of what was verified, the breaks are raised. -/
theorem alerts_verified (rows : PerTable (List Row)) (ts : List Table) :
    (ts.map fun t => Occurrence.verified t (rows.verified t)).filterMap Occurrence.alert? =
      (rows.breaks ts).map Chain.Break.alert := by
  rw [List.filterMap_map, PerTable.breaks, List.map_filterMap]
  refine List.filterMap_congr fun t _ => ?_
  cases h : rows.verified t <;> simp [Chain.Verification.break?, Chain.Break.alert, h]

end Reckoning

namespace Work

/-- The first break is the failure. -/
theorem requireIntact_bind {σ : Type} (vs : List Chain.Verification) (next : Work σ Unit) (w : Running σ) :
    (requireIntact vs >>= fun _ => next : Work σ Unit) w =
      match vs.filterMap Chain.Verification.break? with
      | [] => next w
      | b :: _ => (.error (.chainBroken b.table b.position), w) := by
  induction vs with
  | nil => rfl
  | cons v vs ih =>
    cases v with
    | intact t tail => exact ih
    | broken b => rfl

end Work

theorem Running.store_raise {σ : Type} (w : Running σ) (a : Alert) : (w.raise a).site.store = w.site.store := by
  unfold raise Site.raise
  cases w.ledger.sink <;> rfl

section Opening

variable {σ : Type} [Store σ] {view : σ → PerTable (List Row)} (hshows : Store.Shows view)

namespace Work

include hshows

theorem verifyChain_shows (t : Table) (w : Running σ) :
    ∃ w', verifyChain t w = (.ok ((view w.site.store).verified t), w') ∧ w'.site.store = w.site.store ∧
      w'.reckoning = w.reckoning.after [.verified t ((view w.site.store).verified t)] := by
  have hscan := hshows.scan t w.site.store
  have hanswer : (verifyChain t w).1 = .ok ((view w.site.store).verified t) ∧
      (verifyChain t w).2.site.store = w.site.store := by
    rw [verifyChain_apply, hscan, PerTable.verified]
    dsimp only
    cases Chain.verify t ((view w.site.store).get t) with
    | intact u tail => exact ⟨rfl, rfl⟩
    | broken b => exact ⟨rfl, Running.store_raise _ _⟩
  have htold := reckoning_verifyChain t w
  cases h : verifyChain t w with
  | mk answer w' =>
    rw [verifications, h] at htold
    rw [h] at hanswer
    obtain ⟨rfl, hstore⟩ := hanswer
    exact ⟨w', rfl, hstore, htold⟩

/-- All these chains are verified, whatever is found. -/
theorem mapM_verifyChain_shows (ts : List Table) (w : Running σ) :
    ∃ w', (ts.mapM verifyChain : Work σ _) w = (.ok (ts.map (view w.site.store).verified), w') ∧
      w'.site.store = w.site.store ∧
      w'.reckoning = w.reckoning.after (ts.map fun t => .verified t ((view w.site.store).verified t)) := by
  induction ts generalizing w with
  | nil => exact ⟨w, rfl, rfl, (Reckoning.after_nil _).symm⟩
  | cons t ts ih =>
    obtain ⟨w₁, hfirst, hstore₁, htold₁⟩ := verifyChain_shows hshows t w
    obtain ⟨w₂, hrest, hstore₂, htold₂⟩ := ih w₁
    rw [hstore₁] at hrest hstore₂ htold₂
    refine ⟨w₂, ?_, hstore₂, ?_⟩
    · rw [List.mapM_cons, bind_apply_ok hfirst, bind_apply_ok hrest]
      rfl
    · rw [List.map_cons, Reckoning.after_cons, htold₂, htold₁]

/-- Every chain is verified, and for each that is not intact an alert is raised. -/
theorem verifyAll_shows (w : Running σ) :
    ∃ w', (verifyAll : Work σ _) w = (.ok (Table.all.map (view w.site.store).verified), w') ∧
      w'.site.store = w.site.store ∧
      w'.site.raised = w.site.raised ++ ((view w.site.store).breaks Table.all).map Chain.Break.alert ∧
      w'.site.alerts = w.site.alerts ++
        if w.ledger.sink = .channel then ((view w.site.store).breaks Table.all).map Chain.Break.alert else [] := by
  obtain ⟨w', hverified, hstore, htold⟩ := mapM_verifyChain_shows hshows Table.all w
  rw [← Reckoning.alerts_verified]
  exact ⟨w', hverified, hstore, congrArg Reckoning.raised htold, congrArg Reckoning.delivered htold⟩

/-! ## Opening -/

/-- A ledger enters over rows that can be read. -/
theorem enter_of_readable {w : Running σ} (h : (view w.site.store).Readable) :
    ∃ w', (enter : Work σ Unit) w = (.ok (), w') ∧ w'.site.store = w.site.store := by
  obtain ⟨hstore, found, hfound⟩ := PerTable.fault_eq_none.2 h ▸
    meets_recovery hshows w.site.store w.ledger.settings.chain.lockTimeout w.site rfl
  rw [enter_apply]
  unfold takeUp
  rw [bind_apply_ok (get_apply w), bind_apply_ok (outcome_apply _ w), hfound]
  exact ⟨_, rfl, hstore⟩

/-- The chain that a fault is blamed on is verified. -/
theorem takeUp_of_fault {w : Running σ} {t : Table} {position : ℕ}
    (h : (view w.site.store).fault = some (.chainBroken t position)) :
    ∃ w', (takeUp : Work σ Unit) w =
        (.error (.chainBroken t ((((view w.site.store).verified t).break?.map (·.position)).getD position)), w') ∧
      w'.site.store = w.site.store ∧
      w'.reckoning = w.reckoning.after [.verified t ((view w.site.store).verified t)] := by
  obtain ⟨hstore, hfailed⟩ := h ▸
    meets_recovery hshows w.site.store w.ledger.settings.chain.lockTimeout w.site rfl
  have htold := w.reckoning_of_heard w.ledger.engine w.ledger.index
    (keeps_recovery w.ledger.settings.chain.lockTimeout w.site)
  obtain ⟨w₂, hverify, hstore₂, htold₂⟩ := verifyChain_shows hshows t
    { w with site := (recovery w.ledger.settings.chain.lockTimeout w.site).2 }
  dsimp only at hverify hstore₂ htold₂
  rw [hstore] at hverify hstore₂ htold₂
  unfold takeUp
  rw [bind_apply_ok (get_apply w), bind_apply_ok (outcome_apply _ w), hfailed]
  refine ⟨w₂, bind_apply_ok hverify, hstore₂, ?_⟩
  rw [htold₂, ← htold]

end Work

/-! ## Opening with a verification -/

/-- Tables that are intact can be taken up. -/
theorem readable_of_intact {rows : PerTable (List Row)} (h : ∀ t, (rows.verified t).isIntact = true) :
    rows.Readable := by
  have hplaced (t : Table) : ∀ r ∈ rows.get t, r.Placed t := by
    have hintact := h t
    cases hv : rows.verified t with
    | intact u tail => exact (Chain.linked_of_verify hv).placed
    | broken b => rw [hv] at hintact; cases hintact
  exact ⟨fun t r hr => hplaced t r (List.mem_of_getLast? hr), fun r hr => (hplaced _ r hr).reads,
    fun r hr => (hplaced _ r hr).reads⟩

theorem breaks_eq_nil {rows : PerTable (List Row)} :
    rows.breaks Table.all = [] ↔ ∀ t, (rows.verified t).isIntact = true := by
  rw [PerTable.breaks, List.filterMap_eq_nil_iff]
  simp only [Chain.Verification.isIntact, Option.isNone_iff_eq_none]
  exact ⟨fun h t => h t (Table.mem_all t), fun h t _ => h t⟩

/-- What breaks are found are those of the tables that they name. -/
theorem verify_of_mem_breaks {rows : PerTable (List Row)} {ts : List Table} {b : Chain.Break}
    (h : b ∈ rows.breaks ts) : Chain.verify b.table (rows.get b.table) = .broken b := by
  obtain ⟨t, -, ht⟩ := List.mem_filterMap.1 h
  have hv : Chain.verify t (rows.get t) = .broken b := by
    cases hv : rows.verified t with
    | intact u tail => rw [hv] at ht; cases ht
    | broken b' => rw [hv] at ht; cases ht; exact hv
  cases Chain.table_of_verify hv
  exact hv

/-- The row that is blamed is the first that is not good. -/
theorem Chain.firstBreak_of_verify {t : Table} {rows : List Row} {b : Break} (h : verify t rows = .broken b) :
    ∃ front r later, rows = front ++ r :: later ∧ FirstBreak t front r b := by
  rcases Linked.nil.verifyFrom_cases (t := t) rows with ⟨tail, -, hv⟩ | ⟨front, r, later, b', rfl, hb, hv⟩
  · cases h.symm.trans hv
  · cases h.symm.trans (hv later)
    exact ⟨front, r, later, rfl, hb⟩

/-- What opening a ledger comes to that verifies the rows of its store first. -/
structure OpensVerified (view : σ → PerTable (List Row)) (sink : Sink) (site : Site σ)
    (answer : Except Failure Ledger) (site' : Site σ) : Prop where
  /-- It opens exactly if every table is intact, -/
  opens_iff : (∃ ledger, answer = .ok ledger) ↔ ∀ t, ((view site.store).verified t).isIntact = true
  /-- since then the ends of the chains and the index can both be recovered. -/
  recovers : (∀ t, ((view site.store).verified t).isIntact = true) →
    ∀ (lockTimeout : Duration) (s : Site σ), s.store = site.store →
      (∃ engine, (Engine.recover lockTimeout s).1 = .ok engine) ∧ ∃ index, (Index.recover s).1 = .ok index
  /-- Otherwise it is refused for the first table that is not intact, at the first row there that is not good. -/
  refused : ∀ b more, (view site.store).breaks Table.all = b :: more →
    answer = .error (.chainBroken b.table b.position) ∧
      ∃ front r later, (view site.store).get b.table = front ++ r :: later ∧ Chain.FirstBreak b.table front r b
  /-- One alert is raised for each table that is not intact, in the order of the tables, and no other. -/
  raised : site'.raised = site.raised ++ ((view site.store).breaks Table.all).map Chain.Break.alert
  delivered : site'.alerts = site.alerts ++
    if sink = .channel then ((view site.store).breaks Table.all).map Chain.Break.alert else []
  store : site'.store = site.store

include hshows

/-- Whatever rows a store shows, a ledger that verifies them first opens exactly if all of them verify, and
nothing that is read behind the verification fails then. -/
theorem opens_verified (settings : Settings) (hon : settings.verifyOnOpen = true) (sink : Sink) (site : Site σ) :
    OpensVerified view sink site (Ledger.opened settings sink site).1 (Ledger.opened settings sink site).2 := by
  obtain ⟨w₁, hverified, hstore, hraised, hdelivered⟩ := Work.verifyAll_shows hshows ⟨Ledger.fresh settings sink, site⟩
  have hstart : (Work.startUp : Work σ Unit) ⟨Ledger.fresh settings sink, site⟩ =
      match (view site.store).breaks Table.all with
      | [] => Work.enter w₁
      | b :: _ => (.error (.chainBroken b.table b.position), w₁) := by
    rw [Work.startUp_verified hon, bind_apply_ok hverified, Work.requireIntact_bind, List.filterMap_map]
    rfl
  have hrefused (b : Chain.Break) (more : List Chain.Break) (hb : (view site.store).breaks Table.all = b :: more) :
      Ledger.opened settings sink site = (.error (.chainBroken b.table b.position), w₁.site) := by
    rw [Ledger.opened, hstart, hb]
  have hopened (hb : (view site.store).breaks Table.all = []) :
      ∃ ledger site', Ledger.opened settings sink site = (.ok ledger, site') ∧ site'.store = site.store := by
    have hreadable := readable_of_intact (breaks_eq_nil.1 hb)
    rw [← hstore] at hreadable
    obtain ⟨w₂, henter, hstore₂⟩ := Work.enter_of_readable hshows hreadable
    rw [Ledger.opened, hstart, hb, henter]
    exact ⟨_, _, rfl, hstore₂.trans hstore⟩
  have hrecovers (hintact : ∀ t, ((view site.store).verified t).isIntact = true) (lockTimeout : Duration) (s : Site σ)
      (hs : s.store = site.store) :
      (∃ engine, (Engine.recover lockTimeout s).1 = .ok engine) ∧ ∃ index, (Index.recover s).1 = .ok index := by
    have hreadable := readable_of_intact hintact
    have hlast := PerTable.lastFault_eq_none.2 hreadable.last
    have hrow := PerTable.rowFault_eq_none.2 ⟨hreadable.signals, hreadable.executions⟩
    exact ⟨(hlast ▸ Engine.meets_recover hshows site.store lockTimeout s hs).2,
      (hrow ▸ Index.meets_recover hshows site.store s hs).2⟩
  cases hb : (view site.store).breaks Table.all with
  | nil =>
    obtain ⟨ledger, site', hanswer, hsame⟩ := hopened hb
    have htold := Ledger.reckoning_of_opened hanswer
    rw [hanswer]
    refine ⟨iff_of_true ⟨ledger, rfl⟩ (breaks_eq_nil.1 hb), hrecovers, fun b more h => ?_, ?_, ?_, hsame⟩
    · cases hb.symm.trans h
    · rw [hb, List.map_nil, List.append_nil]
      exact congrArg Reckoning.raised htold
    · rw [hb, List.map_nil, ite_self, List.append_nil]
      exact congrArg Reckoning.delivered htold
  | cons b more =>
    rw [hrefused b more hb]
    have hbroken : ¬ ∀ t, ((view site.store).verified t).isIntact = true := by
      intro h
      rw [breaks_eq_nil.2 h] at hb
      cases hb
    have hfailed : ¬ ∃ ledger, (Except.error (.chainBroken b.table b.position) : Except Failure Ledger) = .ok ledger := by
      rintro ⟨ledger, h⟩
      cases h
    refine ⟨iff_of_false hfailed hbroken, hrecovers, fun b' more' h => ?_, hraised, hdelivered, hstore⟩
    obtain ⟨rfl, -⟩ := List.cons.inj (hb.symm.trans h)
    exact ⟨rfl, Chain.firstBreak_of_verify (verify_of_mem_breaks (hb ▸ List.mem_cons_self))⟩

end Opening

/-- A row of a table, out of its place. -/
def strayRow (t : Table) : Row := ⟨t, 7, Uuid.made 1 1, Uuid.made 2 1, [], Digest.zero⟩

/-- The first signal and the first event say that they are the seventh. -/
def strayed : Site Memory where
  store := ⟨⟨[strayRow .signals], [], [], [strayRow .orderEvents]⟩, .empty⟩
  now := 0
  journal := []
  alerts := []

/-- Both are found, and the ledger is refused for the signal. -/
theorem opens_verified_strayed :
    ({ verifyOnOpen := true } : Settings).verifyOnOpen = true ∧ Store.Shows Memory.rows ∧
      (Ledger.opened { verifyOnOpen := true } .channel strayed).1 = .error (.chainBroken .signals 1) ∧
      (Ledger.opened { verifyOnOpen := true } .channel strayed).2.alerts.length = 2 := by
  have h := opens_verified Memory.shows { verifyOnOpen := true } rfl .channel strayed
  obtain ⟨b, b', hbreaks, htable, hposition⟩ : ∃ b b', strayed.store.rows.breaks Table.all = [b, b'] ∧
      b.table = .signals ∧ b.position = 1 := ⟨_, _, rfl, rfl, rfl⟩
  refine ⟨rfl, Memory.shows, ?_, ?_⟩
  · rw [(h.refused b [b'] hbreaks).1, htable, hposition]
  · rw [h.delivered, hbreaks]
    rfl

/-! ## Opening without one -/

section Opening

variable {σ : Type} [Store σ] {view : σ → PerTable (List Row)} (hshows : Store.Shows view)

/-- The ledger is refused for this break, and the alert for it is raised, and no other. -/
structure Escalates (sink : Sink) (site : Site σ) (b : Chain.Break) (answer : Except Failure Ledger)
    (site' : Site σ) : Prop where
  answer : answer = .error (.chainBroken b.table b.position)
  raised : site'.raised = site.raised ++ [b.alert]
  delivered : site'.alerts = site.alerts ++ if sink = .channel then [b.alert] else []

/-- The ledger is refused for this place, and nothing is raised. -/
structure Dismisses (site : Site σ) (t : Table) (position : ℕ) (answer : Except Failure Ledger)
    (site' : Site σ) : Prop where
  answer : answer = .error (.chainBroken t position)
  raised : site'.raised = site.raised
  delivered : site'.alerts = site.alerts

/-- What opening a ledger comes to that does not verify the rows of its store first. -/
structure OpensUnverified (view : σ → PerTable (List Row)) (sink : Sink) (site : Site σ)
    (answer : Except Failure Ledger) (site' : Site σ) : Prop where
  opens_iff : (∃ ledger, answer = .ok ledger) ↔ (view site.store).Readable
  opened : (view site.store).Readable → site'.raised = site.raised ∧ site'.alerts = site.alerts
  /-- A row that cannot be read is met in a table that does not verify. What is verified is the table that it is
  taken for a row of: a break there is what the ledger is refused for, wherever it is, and is raised; and if there
  is none, the ledger is refused for the place that is named beside the content, and nothing is raised. -/
  refused : ¬ (view site.store).Readable → ∃ u r t, (view site.store).Unread u r t ∧
    (∃ b, (view site.store).verified u = .broken b) ∧
    (∀ b, (view site.store).verified t = .broken b → b.table = t ∧ Escalates sink site b answer site') ∧
    (((view site.store).verified t).isIntact = true → Dismisses site t r.position.toNat answer site')
  /-- So if the row is taken for one of the table that it was met in, it is escalated like any other break. -/
  escalated : ¬ (view site.store).Readable → (∀ u r t, (view site.store).Unread u r t → t = u) →
    ∃ r b, (view site.store).Unread b.table r b.table ∧ (view site.store).verified b.table = .broken b ∧
      Escalates sink site b answer site'
  store : site'.store = site.store

include hshows

/-- A ledger is refused for the first fault, once the chain that it is blamed on was verified. -/
theorem Ledger.opened_of_fault (settings : Settings) (hoff : settings.verifyOnOpen = false) (sink : Sink)
    {site : Site σ} {t : Table} {position : ℕ} (hfault : (view site.store).fault = some (.chainBroken t position)) :
    (∀ b, (view site.store).verified t = .broken b →
        b.table = t ∧ Escalates sink site b (opened settings sink site).1 (opened settings sink site).2) ∧
      (((view site.store).verified t).isIntact = true →
        Dismisses site t position (opened settings sink site).1 (opened settings sink site).2) ∧
      (opened settings sink site).2.store = site.store := by
  obtain ⟨w, htake, hstore, htold⟩ := Work.takeUp_of_fault hshows (w := ⟨fresh settings sink, site⟩) hfault
  dsimp only at htake htold
  have hopened : opened settings sink site = (.error (.chainBroken t
      ((((view site.store).verified t).break?.map (·.position)).getD position)), w.site) := by
    rw [opened, Work.startUp_unverified hoff, Work.enter_apply, htake]
  rw [hopened]
  cases hv : (view site.store).verified t with
  | intact u tail =>
    rw [hv, Reckoning.after_intact] at htold
    refine ⟨fun b hb => ?_, fun _ => ?_, hstore⟩
    · cases hb
    · exact ⟨rfl, congrArg Reckoning.raised htold, congrArg Reckoning.delivered htold⟩
  | broken b =>
    cases Chain.table_of_verify hv
    rw [hv] at htold
    refine ⟨fun b' hb' => ?_, fun hintact => ?_, hstore⟩
    · cases hb'
      exact ⟨rfl, rfl, congrArg Reckoning.raised htold, congrArg Reckoning.delivered htold⟩
    · cases hintact

/-- Whatever rows a store shows, a ledger that does not verify them first opens exactly if the last row of each
table is the row of its place and all signals and executions read. -/
theorem opens_unverified (settings : Settings) (hoff : settings.verifyOnOpen = false) (sink : Sink) (site : Site σ) :
    OpensUnverified view sink site (Ledger.opened settings sink site).1 (Ledger.opened settings sink site).2 := by
  by_cases hreadable : (view site.store).Readable
  · obtain ⟨w, henter, hstore⟩ := Work.enter_of_readable hshows (w := ⟨Ledger.fresh settings sink, site⟩) hreadable
    have hopened : Ledger.opened settings sink site = (.ok w.ledger, w.site) := by
      rw [Ledger.opened, Work.startUp_unverified hoff, henter]
    have htold := Ledger.reckoning_of_opened hopened
    rw [hopened]
    exact ⟨iff_of_true ⟨_, rfl⟩ hreadable,
      fun _ => ⟨congrArg Reckoning.raised htold, congrArg Reckoning.delivered htold⟩,
      fun h => absurd hreadable h, fun h => absurd hreadable h, hstore⟩
  · obtain ⟨f, hfault⟩ := Option.ne_none_iff_exists'.1 (mt PerTable.fault_eq_none.1 hreadable)
    obtain ⟨u, r, t, hunread, rfl⟩ := PerTable.unread_of_fault hfault
    obtain ⟨hescalates, hdismisses, hstore⟩ := Ledger.opened_of_fault hshows settings hoff sink hfault
    obtain ⟨hr, hunplaced⟩ := hunread.mem
    obtain ⟨b, hb⟩ := Chain.exists_break hr hunplaced
    have hanswer : ¬ ∃ ledger, (Ledger.opened settings sink site).1 = .ok ledger := by
      rintro ⟨ledger, h⟩
      cases hv : (view site.store).verified t with
      | intact v tail => cases h.symm.trans (hdismisses (by rw [hv]; rfl)).answer
      | broken b => cases h.symm.trans (hescalates b hv).2.answer
    refine ⟨iff_of_false hanswer hreadable, fun h => absurd h hreadable,
      fun _ => ⟨u, r, t, hunread, ⟨b, hb⟩, hescalates, hdismisses⟩, fun _ hown => ?_, hstore⟩
    cases hown u r t hunread
    obtain ⟨htable, hescalated⟩ := hescalates b hb
    exact ⟨r, b, htable ▸ hunread, htable ▸ hb, hescalated⟩

end Opening

/-- The first signal says that it is the seventh, and is not the row of its place either. -/
theorem opens_unverified_strayed :
    ({} : Settings).verifyOnOpen = false ∧ Store.Shows Memory.rows ∧
      ∃ b, Escalates .channel strayed b (Ledger.opened {} .channel strayed).1 (Ledger.opened {} .channel strayed).2 := by
  have h := opens_unverified Memory.shows {} rfl .channel strayed
  have hunplaced : ¬ (strayRow .signals).Placed .signals := fun ⟨_, he, _⟩ => nomatch he
  have hunread : ¬ strayed.store.rows.Readable := fun h => hunplaced (h.last .signals _ rfl)
  refine ⟨rfl, Memory.shows, ?_⟩
  obtain ⟨u, r, t, hfirst, ⟨bu, hbu⟩, hescalates, -⟩ := h.refused hunread
  cases hfirst with
  | last _ _ _ _ => exact ⟨bu, (hescalates bu hbu).2⟩
  | signal hplaced _ _ _ => exact absurd (hplaced .signals _ rfl) hunplaced
  | execution hplaced _ _ _ _ => exact absurd (hplaced .signals _ rfl) hunplaced

/-- A signal that lost its content, and is named a deliberation. -/
def lostRow : Row := ⟨.deliberations, 1, Uuid.made 1 1, Uuid.made 2 1, [], Digest.zero⟩

/-- A row that is placed behind it. -/
def keptRow : Row where
  table := .signals
  position := 2
  recordId := Uuid.made 1 2
  linkId := Uuid.made 2 2
  content := Envelope.encode
    ⟨.signals, 2, Uuid.made 1 2, Uuid.made 2 2, 0, .event ⟨Uuid.made 2 2, .cancel, none, none, none, none, none, none⟩⟩
  digest := Digest.zero

def misfiled : Site Memory where
  store := ⟨⟨[lostRow, keptRow], [], [], []⟩, .empty⟩
  now := 0
  journal := []
  alerts := []

/-- What is verified for the lost signal are the deliberations, of which there are none. So the ledger is refused
for a deliberation, and nothing is raised, although the signals do not verify. -/
theorem misfiled_not_escalated :
    ({} : Settings).verifyOnOpen = false ∧ misfiled.store.rows.fault = some (.chainBroken .deliberations 1) ∧
      (¬ lostRow.Reads ∧ lostRow ∈ misfiled.store.rows.get .signals) ∧
      (∃ b, misfiled.store.rows.verified .signals = .broken b) ∧
      (misfiled.store.rows.verified .deliberations).isIntact = true ∧
      (Ledger.opened {} .channel misfiled).1 = .error (.chainBroken .deliberations 1) ∧
      (Ledger.opened {} .channel misfiled).2.raised = [] ∧ (Ledger.opened {} .channel misfiled).2.alerts = [] := by
  have hfault : misfiled.store.rows.fault = some (.chainBroken .deliberations 1) := by decide +kernel
  obtain ⟨-, hdismisses, -⟩ := Ledger.opened_of_fault Memory.shows {} rfl .channel hfault
  have h := hdismisses rfl
  exact ⟨rfl, hfault, ⟨fun ⟨_, h⟩ => (nomatch h), List.mem_cons_self⟩, ⟨_, rfl⟩, rfl, h.answer, h.raised, h.delivered⟩

end TradeLedger

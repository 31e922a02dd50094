/-
A rejected call leaves no trace. A call that ends in an error, whatever the reason and however many
attempts it took, leaves every row and every link where it was, every end of a chain, and the index
with all that is held in it.

While it is under way a call can differ from the state it found in one thing only, its reservation,
and only once its row is stored in more (`Spares`). A reservation takes what was free, so to give it
back is to restore the index it was made in; and a call whose row is stored does not fail any more.
-/
import TradeLedger.Proofs.Session.References

namespace TradeLedger

/-! ## Steps of a call that fails -/

namespace Phase

/-- What a call has reserved, until it is done. -/
def reservation? (p : Phase) : Option Reservation := p.errand?.bind Errand.reservation

/-- Of all that a call found, it has touched nothing but what it has reserved, which was free. -/
structure Spares (found : Facts) (p : Phase) (x : Facts) : Prop where
  memory : x.memory = found.memory
  tails : x.engine.tails = found.engine.tails
  unreserved : p.reservation? = none → x.index = found.index
  reserved : ∀ res, p.reservation? = some res → found.index.dedupeKeys.get? res.dedupeKey = none ∧
    found.index.correlations.get? res.correlationId = none ∧ x.index = found.index.hold res

variable {c : Submission} {found x x' : Facts} {p p' : Phase}

theorem spares_refl (x : Facts) : Spares x .asked x := ⟨rfl, rfl, fun _ => rfl, nofun⟩

/-- What neither reserves nor gives back anything is told by rows and ends alone. -/
theorem Spares.keep (h : Spares found p x) (hmemory : x'.memory = x.memory) (htails : x'.engine.tails = x.engine.tails)
    (hindex : x'.index = x.index) (hres : p'.reservation? = p.reservation?) : Spares found p' x' where
  memory := hmemory.trans h.memory
  tails := htails.trans h.tails
  unreserved hnone := hindex.trans (h.unreserved (hres ▸ hnone))
  reserved res hsome := by
    rw [hindex]
    exact h.reserved res (hres ▸ hsome)

/-- A call whose row is stored does not fail any more. -/
theorem Step.succeeded (h : Step c p x p' x') (hp : p.succeeded = true) : p'.succeeded = true := by
  cases h with
  | concluded _ _ | registered _ _ | committed _ | idle => exact hp
  | vetted _ | refused _ | engaged _ _ _ | reserved _ | unreserved _ | unengaged _ _ | stamped _ | contended _ | stored _
  | lost _ | again _ _ | released _ => cases hp

/-- A step that does not store the row of the call spares what the call has found. -/
theorem Step.spares (h : Step c p x p' x') (hspares : Spares found p x) (hp' : p'.succeeded = false) :
    Spares found p' x' := by
  cases h with
  | vetted _ | refused _ | unreserved _ | unengaged _ _ | contended _ | again _ _ | idle =>
    exact hspares.keep rfl rfl rfl rfl
  | stamped _ | lost _ => exact hspares.keep rfl rfl rfl rfl
  | engaged _ hres _ => exact hspares.keep rfl rfl rfl hres
  | concluded hres _ => exact hspares.keep rfl rfl rfl hres.symm
  | stored _ | registered _ _ | committed _ => cases hp'
  | @reserved _ dedupeKey signal res index left hreserve =>
    obtain ⟨hkey, -, hfree, hidfree, hindex⟩ := Index.reserveSignal_eq_ok hreserve
    subst hkey
    rw [hspares.unreserved rfl] at hfree hidfree hindex
    refine ⟨hspares.memory, hspares.tails, nofun, fun res' hres' => ?_⟩
    cases hres'
    exact ⟨hfree, hidfree, hindex⟩
  | @released _ e res f left attempts hres =>
    obtain ⟨hfree, hidfree, hindex⟩ := hspares.reserved res hres
    refine ⟨hspares.memory, hspares.tails, fun _ => ?_, nofun⟩
    show x.index.release res = found.index
    rw [hindex, Index.release_hold hfree hidfree]

/-- Whatever it found, no step stores anything or moves a chain unless the row of the call is stored. -/
theorem Step.keeps_memory (h : Step c p x p' x') (hp' : p'.succeeded = false) :
    x'.memory = x.memory ∧ x'.engine.tails = x.engine.tails := by
  cases h with
  | stored _ => cases hp'
  | _ => exact ⟨rfl, rfl⟩

end Phase

namespace Session

variable {s : Session Flaky} {c : Submission} {i : ℕ}

/-! ## Events around a call -/

theorem advance_eq {d : Call} (hd : s.calls[i]? = some d) :
    s.advance i = ⟨(d.phase.advance d.submission s.running).2,
      s.calls.set i { d with phase := (d.phase.advance d.submission s.running).1 }⟩ := by
  unfold advance
  rw [hd]

theorem getElem?_calls_advance {d : Call} (hd : s.calls[i]? = some d) :
    (s.advance i).calls[i]? = some { d with phase := (d.phase.advance d.submission s.running).1 } := by
  rw [advance_eq hd]
  exact List.getElem?_set_self (List.getElem?_eq_some_iff.1 hd).1

/-- An event other than a step of it leaves a call where it is. -/
theorem getElem?_calls_step {d : Call} {e : Event} (hd : s.calls[i]? = some d) (he : e ≠ .advance i) :
    (s.step e).calls[i]? = some d := by
  have hi := (List.getElem?_eq_some_iff.1 hd).1
  cases e with
  | call _ | append _ => exact (List.getElem?_append_left hi).trans hd
  | query _ | clock _ | hold _ => exact hd
  | free t =>
    rw [step]
    split <;> exact hd
  | advance j =>
    show (s.advance j).calls[i]? = some d
    cases hj : s.calls[j]? with
    | none =>
      have : s.advance j = s := by unfold advance; rw [hj]
      rw [this, hd]
    | some d' =>
      have hne : j ≠ i := fun h => he (by rw [h])
      rw [advance_eq hj, List.getElem?_set_ne hne, hd]
  | reopen settings sink =>
    rw [step]
    split
    · unfold reopen
      split <;> exact hd
    · exact hd

/-- What the steps of a call keep of its phase, every event keeps. -/
theorem exists_call_run {P : Phase → Prop}
    (hP : ∀ (c : Submission) (p : Phase) (w : Running Flaky), P p → P (p.advance c w).1) {d : Call}
    (hd : s.calls[i]? = some d) (hphase : P d.phase) (events : List Event) :
    ∃ d', (s.run events).calls[i]? = some d' ∧ P d'.phase := by
  induction events generalizing s d with
  | nil => exact ⟨d, hd, hphase⟩
  | cons e events ih =>
    by_cases he : e = .advance i
    · subst he
      exact ih (getElem?_calls_advance hd) (hP _ _ _ hphase)
    · exact ih (getElem?_calls_step hd he) hphase

/-- No event makes a call fail whose row is stored. -/
theorem succeeded_run {d : Call} (hd : s.calls[i]? = some d) (hsucc : d.phase.succeeded = true) (events : List Event) :
    ∃ d', (s.run events).calls[i]? = some d' ∧ d'.phase.succeeded = true :=
  exists_call_run (P := fun p => p.succeeded = true) (fun c p w => (Phase.step_advance c w p).succeeded) hd hsucc events

/-- A call that was answered with an error is done with it. -/
theorem eq_done_of_answer {f : Failure} (h : s.answer i = some (.error f)) :
    ∃ d, s.calls[i]? = some d ∧ d.phase = .done (.error f) := by
  obtain ⟨d, hd, hphase⟩ := Option.bind_eq_some_iff.1 h
  refine ⟨d, hd, ?_⟩
  cases hp : d.phase with
  | done r => rw [hp] at hphase; cases hphase; rfl
  | _ => rw [hp] at hphase; cases hphase

end Session

/-! ## A call and nobody else's -/

/-- What may happen while a call is under way if nobody else's call does anything. -/
def Event.Beside (i : ℕ) : Event → Prop
  | .advance j => j = i
  | .call _ | .query _ | .clock _ | .hold _ | .free _ => True
  | .append _ | .reopen _ _ => False

namespace Session

variable {s : Session Flaky} {c : Submission} {i : ℕ} {found : Facts}

/-- The call at a place has spared what it found, unless its row is stored. -/
def Sparing (found : Facts) (i : ℕ) (s : Session Flaky) : Prop :=
  ∃ d, s.calls[i]? = some d ∧ (d.phase.succeeded = false → d.phase.Spares found s.running.facts)

theorem Sparing.step (h : Sparing found i s) (hrecorded : s.Recorded) {e : Event} (he : e.Beside i) :
    Sparing found i (s.step e) := by
  obtain ⟨d, hd, hspares⟩ := h
  -- what changes neither rows, ends nor index changes nothing for the call
  have hkeep (hne : e ≠ .advance i) (hmemory : (s.step e).running.facts.memory = s.running.facts.memory)
      (htails : (s.step e).running.facts.engine.tails = s.running.facts.engine.tails)
      (hindex : (s.step e).running.facts.index = s.running.facts.index) : Sparing found i (s.step e) :=
    ⟨d, getElem?_calls_step hd hne, fun hsucc => (hspares hsucc).keep hmemory htails hindex rfl⟩
  cases e with
  | advance j =>
    cases he
    have hstep := Phase.step_advance d.submission s.running d.phase
    refine ⟨_, getElem?_calls_advance hd, fun hsucc => ?_⟩
    have hbefore : d.phase.succeeded = false := by
      rw [← Bool.not_eq_true]
      intro hbefore
      rw [hstep.succeeded hbefore] at hsucc
      cases hsucc
    show Phase.Spares found _ (s.advance i).running.facts
    rw [advance_eq hd]
    exact hstep.spares (hspares hbefore) hsucc
  | call _ | clock _ | hold _ => exact hkeep nofun rfl rfl rfl
  | query q =>
    have hfacts := q.facts_ask hrecorded.chained.linked
    exact hkeep nofun (congrArg Facts.memory hfacts) (congrArg (·.engine.tails) hfacts) (congrArg Facts.index hfacts)
  | free t =>
    refine hkeep nofun ?_ ?_ ?_ <;>
    · rw [Session.step]
      split <;> rfl
  | append _ | reopen _ _ => cases he

theorem Sparing.run (h : Sparing found i s) (hrecorded : s.Recorded) {events : List Event} (he : ∀ e ∈ events, e.Beside i) :
    Sparing found i (s.run events) := by
  induction events generalizing s with
  | nil => exact h
  | cons e events ih =>
    have hstep := h.step hrecorded (he e List.mem_cons_self)
    exact ih hstep (hrecorded.step e) fun e' he' => he e' (List.mem_cons_of_mem _ he')

/-- An append is a call that is made and then takes one step after the other. -/
theorem append_eq_run (s : Session Flaky) (c : Submission) :
    ∃ n, s.append c = (s.call c).run (List.replicate n (.advance s.calls.length)) := by
  have hrun (n : ℕ) (s : Session Flaky) (i : ℕ) : (advance i)^[n] s = s.run (List.replicate n (.advance i)) := by
    induction n generalizing s with
    | zero => rfl
    | succ n ih => exact ih (s.advance i)
  obtain ⟨n, hn⟩ := append_eq_iterate s c
  exact ⟨n, hn.trans (hrun n _ _)⟩

/-! ## Rejected calls -/

/-- Nothing differs of what is stored and known: rows and links, the ends of the chains, and the index
with everything that is held in it. -/
structure Unchanged (s s' : Session Flaky) : Prop where
  memory : s'.memory = s.memory
  tails : ∀ t, s'.tail t = s.tail t
  index : s'.running.ledger.index = s.running.ledger.index
  /-- So a call is refused a dedupe key exactly if it would have been before. -/
  reusable : ∀ (d : Submission) (key : String) (entry : Entry), d.AsksFor key → d.request.entry = .ok entry →
    (((Phase.vetted entry).advance d s'.running).1 = .done (.error (.duplicateSignal key)) ↔ (s.standing key).isSome)

theorem unchanged_of_spares {r : Except Failure Receipt} {s' : Session Flaky}
    (h : (Phase.done r).Spares s.running.facts s'.running.facts) : s.Unchanged s' where
  memory := h.memory
  tails t := congrArg (·.get t) h.tails
  index := h.unreserved rfl
  reusable d key entry hasks hentry := by
    have hindex : s'.running.facts.index = s.running.facts.index := h.unreserved rfl
    have hstep := Phase.step_advance d s'.running (.vetted entry)
    have hreserves : Call.Reserves key ⟨d, .vetted entry⟩ := ⟨hasks, entry, rfl⟩
    rw [Phase.Step.duplicate_of_reserves (c := ⟨d, .vetted entry⟩) hstep hentry hreserves, hindex]
    rfl

/-- What comes of calls that are rejected. -/
structure Rejects (s : Session Flaky) : Prop where
  /-- An append that is answered with an error has changed nothing. -/
  alone : ∀ c f, (s.append c).answer s.calls.length = some (.error f) → s.Unchanged (s.append c)
  /-- Nor has a call between whose steps tables are held and freed, time passes and the ledger is read. -/
  beside : ∀ c events f, (∀ e ∈ events, e.Beside s.calls.length) →
    ((s.call c).run events).answer s.calls.length = some (.error f) → s.Unchanged ((s.call c).run events)
  /-- Whatever happens between its steps, none of them stores anything or moves a chain. -/
  amid : ∀ c earlier later f,
    ((s.call c).run (earlier ++ .advance s.calls.length :: later)).answer s.calls.length = some (.error f) →
      (((s.call c).run earlier).advance s.calls.length).memory = ((s.call c).run earlier).memory ∧
      ∀ t, (((s.call c).run earlier).advance s.calls.length).tail t = ((s.call c).run earlier).tail t
  /-- A dedupe key is only held by a call for it that is not done, and so is an identifier. -/
  holders : (∀ key, s.standing key = some .held →
      ∃ d ∈ s.calls, d.phase.isDone = false ∧ ∃ res, d.phase.reservation? = some res ∧ res.dedupeKey = key) ∧
    ∀ id, s.running.ledger.index.correlations.get? id = some .held →
      ∃ d ∈ s.calls, d.phase.isDone = false ∧ ∃ res, d.phase.reservation? = some res ∧ res.correlationId = id

theorem beside_of_recorded (h : s.Recorded) {events : List Event} {f : Failure} (he : ∀ e ∈ events, e.Beside s.calls.length)
    (hanswer : ((s.call c).run events).answer s.calls.length = some (.error f)) : s.Unchanged ((s.call c).run events) := by
  have hcall : (s.call c).Recorded := h.of_reaches (.single (.call c))
  have hsparing : Sparing s.running.facts s.calls.length (s.call c) :=
    ⟨⟨c, .asked⟩, List.getElem?_concat_length, fun _ => Phase.spares_refl _⟩
  obtain ⟨d, hd, hspares⟩ := hsparing.run hcall he
  obtain ⟨d', hd', hphase⟩ := eq_done_of_answer hanswer
  cases hd.symm.trans hd'
  rw [hphase] at hspares
  exact unchanged_of_spares (hspares rfl)

/-- A call that ends in an error has not stored its row at any time before. -/
theorem keeps_memory_of_answer {events : List Event} {f : Failure} {d : Call} (hd : s.calls[i]? = some d)
    (hanswer : ((s.advance i).run events).answer i = some (.error f)) :
    (s.advance i).memory = s.memory ∧ ∀ t, (s.advance i).tail t = s.tail t := by
  have hstep := Phase.step_advance d.submission s.running d.phase
  have hsucc : (d.phase.advance d.submission s.running).1.succeeded = false := by
    rw [← Bool.not_eq_true]
    intro hsucc
    obtain ⟨d', hd', hsucc'⟩ := succeeded_run (getElem?_calls_advance hd) hsucc events
    obtain ⟨d'', hd'', hphase⟩ := eq_done_of_answer hanswer
    cases hd'.symm.trans hd''
    rw [hphase] at hsucc'
    cases hsucc'
  obtain ⟨hmemory, htails⟩ := hstep.keeps_memory hsucc
  rw [advance_eq hd]
  exact ⟨hmemory, fun t => congrArg (·.get t) htails⟩

/-- What is held is held by a call that is not done. -/
theorem holders_of_reserved {x : Facts} {calls : List Call} (h : Reserved x calls) :
    (∀ key, x.index.dedupeKeys.get? key = some .held →
      ∃ d ∈ calls, d.phase.isDone = false ∧ ∃ res, d.phase.reservation? = some res ∧ res.dedupeKey = key) ∧
    ∀ id, x.index.correlations.get? id = some .held →
      ∃ d ∈ calls, d.phase.isDone = false ∧ ∃ res, d.phase.reservation? = some res ∧ res.correlationId = id := by
  have howner {i : ℕ} {o : Reservation × Option Receipt} (ho : owner calls i = some o) :
      ∃ d ∈ calls, d.phase.isDone = false ∧ d.phase.reservation? = some o.1 := by
    obtain ⟨d, hd, howned⟩ := Option.bind_eq_some_iff.1 ho
    refine ⟨d, List.mem_of_getElem? hd, ?_⟩
    cases hphase : d.phase with
    | ready e _ _ | flying e _ _ _ | tried e _ _ _ =>
      rw [hphase] at howned
      obtain ⟨res, hres, rfl⟩ := Option.map_eq_some_iff.1 howned
      exact ⟨rfl, hres⟩
    | asked | vetted _ | done _ => rw [hphase] at howned; cases howned
  refine ⟨fun key hkey => ?_, fun id hid => ?_⟩
  · obtain ⟨i, b, hi⟩ := (h.keys.held_iff key).1 hkey
    obtain ⟨o, ho, heq⟩ := Option.map_eq_some_iff.1 hi
    obtain ⟨d, hd, hdone, hres⟩ := howner ho
    exact ⟨d, hd, hdone, o.1, hres, congrArg Prod.fst heq⟩
  · obtain ⟨i, b, hi⟩ := (h.ids.held_iff id).1 hid
    obtain ⟨o, ho, heq⟩ := Option.map_eq_some_iff.1 hi
    obtain ⟨d, hd, hdone, hres⟩ := howner ho
    exact ⟨d, hd, hdone, o.1, hres, congrArg Prod.fst heq⟩

theorem rejects_of_recorded (h : s.Recorded) : s.Rejects where
  alone c f hanswer := by
    obtain ⟨n, hn⟩ := append_eq_run s c
    rw [hn] at hanswer ⊢
    refine beside_of_recorded h (fun e he => ?_) hanswer
    rw [List.eq_of_mem_replicate he]
    exact rfl
  beside c events f he hanswer := beside_of_recorded h he hanswer
  amid c earlier later f hanswer := by
    have hcall : (s.call c).calls[s.calls.length]? = some ⟨c, .asked⟩ := List.getElem?_concat_length
    obtain ⟨d, hd, -⟩ := exists_call_run (P := fun _ => True) (fun _ _ _ => id) hcall trivial earlier
    rw [run, List.foldl_append] at hanswer
    exact keeps_memory_of_answer hd hanswer
  holders := holders_of_reserved h.reserved

/-- A ledger opens over an empty store, and whatever has happened since, however calls interleave,
whichever appends fail and however often the ledger was opened again: a call that is answered with an
error leaves no trace. -/
theorem rejection_traceless (settings : Settings) (sink : Sink) (faults : List (Option Failure)) (now : Instant) :
    ∃ w : Running Flaky,
      Ledger.opened settings sink { store := ⟨.empty, faults⟩, now, journal := [], alerts := [] } =
        (.ok w.ledger, w.site) ∧
      ∀ events, ((⟨w, []⟩ : Session Flaky).run events).Rejects := by
  obtain ⟨w, hopened, hrecorded, -⟩ := recorded_of_opened settings sink faults now
  exact ⟨w, hopened, fun events => rejects_of_recorded (hrecorded.run events)⟩

-- the key of a signal that could not be stored can be used again
example :
    let store : Flaky := ⟨.empty, [some (.storage "disk full")]⟩
    let site : Site Flaky := { store, now := 0, journal := [], alerts := [] }
    (run ⟨{ ledger := .fresh {} .log, site }, []⟩ [.append alert, .append alert]).calls.map (·.phase.succeeded) =
      [false, true] := by
  rfl

end Session

end TradeLedger

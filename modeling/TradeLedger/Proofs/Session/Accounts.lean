/-
A ledger accounts for everything that comes to pass while it is open. However calls interleave and
whatever a store does, even if another one is put in its place, the alerts are those that are due, in
order, the ledger is locked exactly if a chain was found broken, and every count is how often it
happened.

An attempt is over once the ledger takes up the answer of the engine; what is due for it is due then.
-/
import TradeLedger.Proofs.Ledger.Reckoning
import TradeLedger.Proofs.Session.Reopening

namespace TradeLedger

variable {σ : Type} [Store σ]

/-! ## Steps of a call -/

theorem Submission.Becomes.table {c : Submission} {e : Errand} (h : c.Becomes e) : e.body.table = c.request.table :=
  h.yields.table

omit [Store σ] in
/-- An entry is engaged as an errand that it can become. -/
theorem Work.engages_of_engage {draws : Draws} {entry : Entry} {e : Errand} {w w' : Running σ}
    (h : engage draws entry w = (.ok e, w')) : entry.Engages draws e := by
  cases entry with
  | signal dedupeKey signal =>
    rw [engage_signal] at h
    cases hreserve : w.ledger.index.reserveSignal dedupeKey draws.correlations with
    | ok p =>
      rw [hreserve] at h
      cases h
      exact .signal _ _ (Index.reserveSignal_eq_ok hreserve).1
    | error f => rw [hreserve] at h; cases h
  | deliberation d =>
    obtain ⟨-, w₁, -, h⟩ := apply_of_bind_eq_ok h
    cases h
    exact .deliberation d
  | execution x =>
    obtain ⟨-, w₁, -, h⟩ := apply_of_bind_eq_ok h
    cases h
    exact .execution x
  | event x =>
    obtain ⟨-, w₁, -, h⟩ := apply_of_bind_eq_ok h
    cases h
    exact .event x

namespace Phase

variable {c : Submission} {p : Phase}

omit [Store σ] in
/-- After an attempt at what is no signal, another one follows if it failed in a way that may pass and more are
allowed, and otherwise the call ends. -/
theorem conclude_cases {e : Errand} (he : e.reservation = none) (r : Except Failure Receipt) (left attempts : ℕ)
    (w : Running σ) :
    (∃ left' f, r = .error f ∧ f.Passing ∧ left = left' + 1 ∧
      conclude e r left attempts w = (.ready e left' (attempts + 1), w.again e.body.table attempts f)) ∨
    ((∀ f, r = .error f → f.Passing → left = 0) ∧ conclude e r left attempts w =
      (.done r, ((w.rest e.body.table attempts r).register e.body r).observe e.body.table r)) := by
  simp only [conclude, he]
  split
  · rename_i left' f
    split
    · rename_i hf
      exact .inl ⟨left', f, rfl, Failure.retryable_eq_true_iff.1 hf, rfl, rfl⟩
    · rename_i hf
      refine .inr ⟨?_, ?_⟩
      · rintro f' ⟨rfl⟩ hf'
        exact absurd (Failure.retryable_eq_true_iff.2 hf') hf
      · simp only [Running.rest, if_neg hf, Running.register]
  · rename_i hlast
    refine .inr ⟨?_, rfl⟩
    rintro f rfl -
    cases left with
    | zero => rfl
    | succ left' => exact (hlast left' f rfl rfl).elim

/-- Whatever the store, a call goes from phases of its own to phases of its own. -/
theorem from_advance (hp : p.From c) (w : Running σ) : (advance c p w).1.From c := by
  cases p with
  | asked =>
    rw [advance]
    split
    · rename_i entry w' h
      exact Work.entry_of_vet h
    · trivial
  | vetted entry =>
    rw [advance]
    split
    · rename_i e w' h
      exact ⟨entry, hp, Work.engages_of_engage h⟩
    · trivial
  | ready e left attempts =>
    rw [advance]
    split <;> exact hp
  | flying e s left attempts => exact hp
  | tried e r left attempts =>
    cases hres : e.reservation with
    | some res =>
      simp only [advance, conclude, hres]
      trivial
    | none =>
      rcases conclude_cases hres r left attempts w with ⟨left', f, -, -, -, h⟩ | ⟨-, h⟩ <;> rw [advance, h]
      · exact hp
      · trivial
  | done r => trivial

/-- What comes to pass when a call goes from one phase to another. -/
def occurrences (c : Submission) : Phase → Phase → List Occurrence
  | .tried _ r _ attempts, .done r' => [.attempted c.request.table r, .appended c.request.table attempts r']
  | .tried _ r _ _, _ => [.attempted c.request.table r]
  | .done _, _ => []
  | _, .done (.error f) => [.declined c.request.table f]
  | _, .done (.ok receipt) => [.appended c.request.table 0 (.ok receipt)]
  | _, _ => []

/-- The answer of a call that is done. -/
def answer? : Phase → Option (Except Failure Receipt)
  | .done r => some r
  | _ => none

omit [Store σ] in
theorem answer?_eq_none (hp : p.isDone = false) : p.answer? = none := by
  cases p with
  | done r => cases hp
  | _ => rfl

omit [Store σ] in
/-- An append comes to pass when its call is done. -/
theorem answers_occurrences (c : Submission) (hp : p.isDone = false) (p' : Phase) :
    (occurrences c p p').filterMap Occurrence.answer? = (p'.answer?.map (c.request.table, ·)).toList := by
  cases p with
  | done r => cases hp
  | _ =>
    cases p' with
    | done r => cases r <;> rfl
    | _ => rfl

/-- Each step of a call tells what is due for what comes to pass in it. -/
theorem reckoning_advance (hp : p.From c) (w : Running σ) :
    (advance c p w).2.reckoning = w.reckoning.after (occurrences c p (advance c p w).1) := by
  cases p with
  | asked =>
    have hkeeps := Work.keeps_vet (fun _ => Work.keeps_note) c.caller c.request w
    rw [advance]
    cases h : Work.vet c.caller c.request w with
    | mk answer w' =>
      rw [h] at hkeeps
      cases answer with
      | ok entry => exact hkeeps.trans (Reckoning.after_nil _).symm
      | error f =>
        refine (w'.reckoning_observe_declined c.request.table (Work.not_passing_of_vet h)).trans ?_
        rw [hkeeps]
        rfl
  | vetted entry =>
    have hkeeps := Work.keeps_engage c.draws entry w
    rw [advance]
    cases h : Work.engage c.draws entry w with
    | mk answer w' =>
      rw [h] at hkeeps
      cases answer with
      | ok e => exact hkeeps.trans (Reckoning.after_nil _).symm
      | error f =>
        refine (w'.reckoning_observe_declined c.request.table (Work.not_passing_of_engage h)).trans ?_
        rw [hkeeps]
        rfl
  | ready e left attempts =>
    rw [advance]
    split <;> exact (Reckoning.after_nil _).symm
  | flying e s left attempts => exact (w.reckoning_complete s).trans (Reckoning.after_nil _).symm
  | tried e r left attempts =>
    have htable := hp.table
    cases hres : e.reservation with
    | some res =>
      obtain ⟨q, s, hq, -, hs, -⟩ := hp.reservation hres
      simp only [advance, conclude, hres, htable, hq, Request.table, occurrences]
      exact w.reckoning_settleSignal attempts r res
    | none =>
      have hcold := htable ▸ hp.table_ne hres
      rcases conclude_cases hres r left attempts w with ⟨left', f, rfl, -, -, h⟩ | ⟨-, h⟩ <;> rw [advance, h, htable]
      · exact w.reckoning_again _ attempts f
      · exact w.reckoning_rest attempts r hcold e.body
  | done r => exact (Reckoning.after_nil _).symm

/-! ### A call from its first step to its last -/

/-- How many more steps a call takes at most. -/
def rank (w : Running σ) : Phase → ℕ
  | .asked => 3 * (w.ledger.settings.retry.maxAttempts - 1) + 5
  | .vetted _ => 3 * (w.ledger.settings.retry.maxAttempts - 1) + 4
  | .ready _ left _ => 3 * left + 3
  | .flying _ _ left _ => 3 * left + 2
  | .tried _ _ left _ => 3 * left + 1
  | .done _ => 0

/-- A step takes a call that is not done nearer to its end. -/
theorem rank_advance (hp : p.isDone = false) (w : Running σ) :
    rank (advance c p w).2 (advance c p w).1 < rank w p := by
  cases p with
  | asked =>
    have hkeeps := Work.keeps_vet (fun _ => Work.keeps_note) c.caller c.request w
    rw [advance]
    cases h : Work.vet c.caller c.request w with
    | mk answer w' =>
      rw [h] at hkeeps
      have hsettings : w'.ledger.settings = w.ledger.settings := congrArg Reckoning.settings hkeeps
      cases answer <;> simp [rank, hsettings]
  | vetted entry =>
    have hkeeps := Work.keeps_engage c.draws entry w
    rw [advance]
    cases h : Work.engage c.draws entry w with
    | mk answer w' =>
      rw [h] at hkeeps
      have hsettings : w'.ledger.settings = w.ledger.settings := congrArg Reckoning.settings hkeeps
      cases answer <;> simp [rank, hsettings]
  | ready e left attempts =>
    rw [advance]
    split <;> simp [rank]
  | flying e s left attempts => simp [advance, rank]
  | tried e r left attempts =>
    cases hres : e.reservation with
    | some res => simp [advance, conclude, hres, rank]
    | none =>
      rcases conclude_cases hres r left attempts w with ⟨left', f, -, -, rfl, h⟩ | ⟨-, h⟩ <;> rw [advance, h]
      · simp only [rank]
        omega
      · simp [rank]
  | done r => cases hp

/-- Step after step. -/
def steps (c : Submission) (n : ℕ) (x : Phase × Running σ) : Phase × Running σ := (fun x => advance c x.1 x.2)^[n] x

theorem steps_succ (c : Submission) (n : ℕ) (p : Phase) (w : Running σ) :
    steps c (n + 1) (p, w) = steps c n (advance c p w) := rfl

/-- A call that is done takes no more steps. -/
theorem steps_done (c : Submission) (n : ℕ) (r : Except Failure Receipt) (w : Running σ) :
    steps c n (.done r, w) = (.done r, w) := by
  induction n with
  | zero => rfl
  | succ n ih => exact ih

/-- Every call comes to an end. -/
theorem steps_rank (c : Submission) (p : Phase) (w : Running σ) {n : ℕ} (hn : rank w p ≤ n) :
    ∃ r w', steps c n (p, w) = (.done r, w') := by
  induction n generalizing p w with
  | zero =>
    cases p with
    | done r => exact ⟨r, w, rfl⟩
    | _ => simp [rank] at hn
  | succ n ih =>
    cases hp : p.isDone with
    | true =>
      cases p with
      | done r => exact ⟨r, w, steps_done c _ r w⟩
      | _ => cases hp
    | false =>
      have hlt := rank_advance (c := c) hp w
      exact ih (advance c p w).1 (advance c p w).2 (by omega)

/-- An append is a call that takes so many steps. -/
theorem steps_append (c : Submission) (w : Running σ) :
    steps c (rank w .asked) (.asked, w) =
      (.done (w.append c.caller c.draws c.request).1, (w.append c.caller c.draws c.request).2) := by
  obtain ⟨n, hn⟩ := reaches_append c w
  obtain ⟨r, w', hr⟩ := steps_rank c .asked w (le_refl _)
  -- both numbers of steps lead to the end, and from there nowhere else
  calc steps c (rank w .asked) (.asked, w) = steps c n (steps c (rank w .asked) (.asked, w)) := by
        rw [hr, steps_done]
    _ = steps c (rank w .asked) (steps c n (.asked, w)) := by
        rw [steps, steps, ← Function.iterate_add_apply, Nat.add_comm, Function.iterate_add_apply]
        rfl
    _ = _ := by rw [show steps c n (.asked, w) = _ from hn, steps_done]

/-- What comes to pass in so many steps of a call. -/
def history (c : Submission) : ℕ → Phase → Running σ → List Occurrence
  | 0, _, _ => []
  | n + 1, p, w => occurrences c p (advance c p w).1 ++ history c n (advance c p w).1 (advance c p w).2

theorem history_done (c : Submission) (n : ℕ) (r : Except Failure Receipt) (w : Running σ) :
    history c n (.done r) w = [] := by
  induction n with
  | zero => rfl
  | succ n ih => exact ih

/-- However many steps a call takes, it is answered once. -/
theorem answers_history (c : Submission) (hp : p.isDone = false) (n : ℕ) (w : Running σ) :
    (history c n p w).filterMap Occurrence.answer? =
      ((steps c n (p, w)).1.answer?.map (c.request.table, ·)).toList := by
  induction n generalizing p w with
  | zero =>
    show [] = (p.answer?.map _).toList
    rw [answer?_eq_none hp]
    rfl
  | succ n ih =>
    rw [history, List.filterMap_append, answers_occurrences c hp, steps_succ]
    cases hnext : advance c p w with
    | mk p' w' =>
      cases hp' : p'.isDone with
      | true =>
        cases p' with
        | done r => rw [history_done, steps_done, List.filterMap_nil, List.append_nil]
        | _ => cases hp'
      | false => rw [answer?_eq_none hp', ih hp']; rfl

theorem reckoning_steps (hp : p.From c) (n : ℕ) (w : Running σ) :
    (steps c n (p, w)).2.reckoning = w.reckoning.after (history c n p w) := by
  induction n generalizing p w with
  | zero => exact (Reckoning.after_nil _).symm
  | succ n ih => rw [steps_succ, history, Reckoning.after_append, ← reckoning_advance hp, ← ih (from_advance hp w)]

end Phase

/-! ## Sessions -/

/-- What comes to pass when this is asked. -/
def Query.occurrences : Query → Running σ → List Occurrence
  | .verifyChain t, w => Work.verifications [t] w
  | .verifyAll, w => Work.verifications Table.all w
  | .mutate m, w =>
    match (Work.mutate m w).1 with
    | .error f => [.refused f]
    | .ok changed => nomatch changed
  | .byCorrelation _, _ | .byDedupeKey _, _ | .eventsOf _, _ | .records _, _ => []

theorem Query.reckoning_ask (q : Query) (w : Running σ) :
    (q.ask w).reckoning = w.reckoning.after (q.occurrences w) := by
  have hasks {α : Type} (f : σ → Except Failure α × σ) : Keeps Running.reckoning (Work.ask f) := Work.keeps_ask f
  have hlinked (t : Table) (link : Uuid) := Work.keeps_linked (fun _ _ => hasks _) (fun _ _ => hasks _) t link w
  cases q with
  | verifyChain t => exact Work.reckoning_verifyChain t w
  | verifyAll => exact Work.reckoning_mapM_verifyChain Table.all w
  | byCorrelation id =>
    exact (Work.keeps_byCorrelation (fun _ _ => hasks _) (fun _ _ => hasks _) id w).trans (Reckoning.after_nil _).symm
  | byDedupeKey key =>
    exact (Work.keeps_byDedupeKey (fun _ _ => hasks _) (fun _ _ => hasks _) key w).trans (Reckoning.after_nil _).symm
  | eventsOf id => exact (hlinked .orderEvents id).trans (Reckoning.after_nil _).symm
  | records t => exact (Work.keeps_records (fun _ => hasks _) t w).trans (Reckoning.after_nil _).symm
  | mutate m => exact Work.reckoning_mutate m w

theorem Query.answers_occurrences (q : Query) (w : Running σ) :
    (q.occurrences w).filterMap Occurrence.answer? = [] := by
  cases q with
  | verifyChain t => exact Work.filterMap_answer?_verifications [t] w
  | verifyAll => exact Work.filterMap_answer?_verifications Table.all w
  | _ => rfl

/-- Whether the ledger stays open. -/
def Event.Stays : Event → Prop
  | .reopen _ _ => False
  | _ => True

/-- What happens next to a ledger while it is open. -/
inductive Turn (σ : Type) where
  | event (e : Event) (stays : e.Stays)
  /-- Somebody puts another store in the place of this one. -/
  | tamper (store : σ)

namespace Session

/-- One turn. -/
def turn (s : Session σ) : Turn σ → Session σ
  | .event e _ => s.step e
  | .tamper store => s.mapStore fun _ => store

/-- Turn after turn. -/
def turns (s : Session σ) (ts : List (Turn σ)) : Session σ := ts.foldl turn s

/-- What comes to pass when a call takes its next step. -/
def occurrencesAt (s : Session σ) (i : ℕ) : List Occurrence :=
  match s.calls[i]? with
  | none => []
  | some c => c.phase.occurrences c.submission (c.phase.advance c.submission s.running).1

/-- What comes to pass in one turn. -/
def occurrences (s : Session σ) : Turn σ → List Occurrence
  | .event (.advance i) _ => s.occurrencesAt i
  | .event (.append c) _ => Phase.history c (Phase.rank s.running .asked) .asked s.running
  | .event (.query q) _ => q.occurrences s.running
  | .event (.call _) _ | .event (.clock _) _ | .event (.hold _) _ | .event (.free _) _ | .tamper _ => []

/-- What comes to pass, turn after turn. -/
def history (s : Session σ) : List (Turn σ) → List Occurrence
  | [] => []
  | t :: ts => s.occurrences t ++ (s.turn t).history ts

variable {s : Session σ}

/-- Every call is in a phase of its own. -/
def Coherent (s : Session σ) : Prop := ∀ d ∈ s.calls, d.phase.From d.submission

theorem Coherent.turn (h : s.Coherent) (t : Turn σ) : (s.turn t).Coherent := by
  have hcall (c : Submission) (p : Phase) (hp : p.From c) : ∀ d ∈ s.calls ++ [⟨c, p⟩], d.phase.From d.submission :=
    List.forall_mem_append.2 ⟨h, List.forall_mem_singleton.2 hp⟩
  cases t with
  | tamper store => exact h
  | event e stays =>
    cases e with
    | call c => exact hcall c .asked trivial
    | advance i =>
      show (s.advance i).Coherent
      unfold advance
      split
      · exact h
      · rename_i d hd
        intro d' hd'
        rcases List.mem_or_eq_of_mem_set hd' with hmem | rfl
        · exact h d' hmem
        · exact Phase.from_advance (h d (List.mem_of_getElem? hd)) _
    | append c => exact hcall c (.done _) trivial
    | query q => exact h
    | clock now => exact h
    | hold t => exact h
    | free t =>
      show (if s.inFlight t then s else s.setHeld t false).Coherent
      split <;> exact h
    | reopen settings sink => exact stays.elim

/-- Each turn tells what is due for what comes to pass in it. -/
theorem reckoning_turn (h : s.Coherent) (t : Turn σ) :
    (s.turn t).running.reckoning = s.running.reckoning.after (s.occurrences t) := by
  cases t with
  | tamper store => exact (Reckoning.after_nil _).symm
  | event e stays =>
    cases e with
    | call c => exact (Reckoning.after_nil _).symm
    | advance i =>
      show (s.advance i).running.reckoning = s.running.reckoning.after (s.occurrencesAt i)
      unfold advance occurrencesAt
      cases hd : s.calls[i]? with
      | none => exact (Reckoning.after_nil _).symm
      | some d => exact Phase.reckoning_advance (h d (List.mem_of_getElem? hd)) s.running
    | append c =>
      have hsteps := Phase.reckoning_steps (c := c) (p := .asked) trivial (Phase.rank s.running .asked) s.running
      rw [Phase.steps_append] at hsteps
      exact hsteps
    | query q => exact q.reckoning_ask s.running
    | clock now => exact (Reckoning.after_nil _).symm
    | hold t => exact (Reckoning.after_nil _).symm
    | free t =>
      show (if s.inFlight t then s else s.setHeld t false).running.reckoning = _
      split <;> exact (Reckoning.after_nil _).symm
    | reopen settings sink => exact stays.elim

theorem reckoning_turns (h : s.Coherent) (ts : List (Turn σ)) :
    (s.turns ts).running.reckoning = s.running.reckoning.after (s.history ts) := by
  induction ts generalizing s with
  | nil => exact (Reckoning.after_nil _).symm
  | cons t ts ih => rw [history, Reckoning.after_append, ← reckoning_turn h t, ← ih (h.turn t)]; rfl

theorem history_append (s : Session σ) (ts more : List (Turn σ)) :
    s.history (ts ++ more) = s.history ts ++ (s.turns ts).history more := by
  induction ts generalizing s with
  | nil => rfl
  | cons t ts ih => rw [List.cons_append, history, history, ih, List.append_assoc]; rfl

/-! ### Answers -/

/-- What the calls that are done were answered, each for its table. -/
def answers (s : Session σ) : List (Table × Except Failure Receipt) :=
  s.calls.filterMap fun d => d.phase.answer?.map (d.submission.request.table, ·)

/-- What takes a place that was left out comes in addition. -/
theorem filterMap_set_perm {α β : Type} {f : α → Option β} {as : List α} {i : ℕ} {a : α} (hi : as[i]? = some a)
    (ha : f a = none) (b : α) : ((as.set i b).filterMap f).Perm (as.filterMap f ++ (f b).toList) := by
  induction as generalizing i with
  | nil => cases hi
  | cons x as ih =>
    cases i with
    | zero =>
      cases hi
      rw [List.set_cons_zero, List.filterMap_cons_none ha]
      cases hb : f b with
      | none => simp [hb]
      | some y => simpa [hb] using (List.perm_append_singleton y _).symm
    | succ i =>
      rw [List.set_cons_succ]
      cases hx : f x with
      | none => simpa [hx] using ih hi
      | some y => simpa [hx] using ih hi

theorem answers_advance (s : Session σ) (i : ℕ) :
    (s.advance i).answers.Perm (s.answers ++ (s.occurrencesAt i).filterMap Occurrence.answer?) := by
  unfold advance occurrencesAt
  cases hd : s.calls[i]? with
  | none => simp
  | some d =>
    cases hdone : d.phase.isDone with
    | true =>
      -- a call that is done stays as it is
      obtain ⟨c, p⟩ := d
      cases p with
      | done r =>
        obtain ⟨hi, hd⟩ := List.getElem?_eq_some_iff.1 hd
        have hset : s.calls.set i ⟨c, .done r⟩ = s.calls := hd ▸ List.set_getElem_self hi
        show (List.filterMap _ (s.calls.set i ⟨c, .done r⟩)).Perm (s.answers ++ [])
        rw [hset, List.append_nil]
        exact .refl _
      | _ => cases hdone
    | false =>
      dsimp only
      rw [Phase.answers_occurrences _ hdone]
      exact filterMap_set_perm hd (by rw [Phase.answer?_eq_none hdone]; rfl) _

/-- The appends that come to pass are the calls that are answered. -/
theorem answers_turn (s : Session σ) (t : Turn σ) :
    (s.turn t).answers.Perm (s.answers ++ (s.occurrences t).filterMap Occurrence.answer?) := by
  have hsame : s.answers.Perm (s.answers ++ []) := .of_eq (List.append_nil _).symm
  cases t with
  | tamper store => exact hsame
  | event e stays =>
    cases e with
    | call c => exact .of_eq List.filterMap_append
    | advance i => exact answers_advance s i
    | append c =>
      show ((s.append c).answers).Perm (s.answers ++ List.filterMap _ (Phase.history c _ .asked s.running))
      rw [Phase.answers_history c rfl, Phase.steps_append]
      exact .of_eq List.filterMap_append
    | query q =>
      show s.answers.Perm (s.answers ++ (q.occurrences s.running).filterMap Occurrence.answer?)
      rw [q.answers_occurrences]
      exact hsame
    | clock now => exact hsame
    | hold t => exact hsame
    | free t =>
      show (if s.inFlight t then s else s.setHeld t false).answers.Perm _
      split <;> exact hsame
    | reopen settings sink => exact stays.elim

theorem answers_turns (s : Session σ) (ts : List (Turn σ)) :
    (s.turns ts).answers.Perm (s.answers ++ (s.history ts).filterMap Occurrence.answer?) := by
  induction ts generalizing s with
  | nil => simp [history, turns]
  | cons t ts ih =>
    rw [history, List.filterMap_append, ← List.append_assoc]
    exact (ih (s.turn t)).trans ((answers_turn s t).append_right _)

/-! ## Accounts -/

/-- What a ledger, opened at a site, has told of itself since is what is due for what came to pass since. -/
structure Accounted (sink : Sink) (opening : Site σ) (s : Session σ) (os : List Occurrence) : Prop where
  /-- The appends that came to pass are the calls that were answered. -/
  answers : s.answers.Perm (os.filterMap Occurrence.answer?)
  /-- Every alert is raised, in order, and no other, -/
  raised : s.running.site.raised = opening.raised ++ os.filterMap Occurrence.alert?
  /-- and all of them are delivered where somebody receives them. -/
  delivered : s.running.site.alerts =
    opening.alerts ++ if sink = .channel then os.filterMap Occurrence.alert? else []
  /-- The ledger is locked if and only if a verification found a break. -/
  locked : s.running.ledger.locked = true ↔ ∃ t b, .verified t (.broken b) ∈ os
  /-- Counted are the appends to each table that succeeded, -/
  appends : ∀ t, s.running.ledger.metrics.appends.count t = (os.filterMap Occurrence.append?).count t
  /-- by each cause the appends and changes that were rejected, -/
  rejections : ∀ l, s.running.ledger.metrics.rejections.count l = (os.filterMap Occurrence.rejection?).count l
  /-- the attempts that did not get hold of each table, -/
  contention : ∀ t, s.running.ledger.metrics.contention.count t = (os.filterMap Occurrence.contention?).count t
  /-- and the verifications of each table that found a break. -/
  chainBreaks : ∀ t, s.running.ledger.metrics.chainBreaks.count t = (os.filterMap Occurrence.chainBreak?).count t

theorem accounted_of_fresh {settings : Settings} {sink : Sink} {site : Site σ} (h : s.Coherent)
    (hanswers : s.answers = [])
    (hfresh : s.running.reckoning = (⟨.fresh settings sink, site⟩ : Running σ).reckoning) (ts : List (Turn σ)) :
    Accounted sink site (s.turns ts) (s.history ts) := by
  have htold := reckoning_turns h ts
  have hanswered := answers_turns s ts
  rw [hfresh] at htold
  rw [hanswers, List.nil_append] at hanswered
  generalize s.turns ts = s' at htold hanswered ⊢
  generalize s.history ts = os at htold hanswered ⊢
  have hcount {α : Type} [DecidableEq α] {tally : Tally α} {as : List α} (h : tally = as.foldl Tally.add .empty)
      (a : α) : tally.count a = as.count a := by
    rw [h, Tally.count_foldl_add, Tally.count_empty, Nat.zero_add]
  exact
    { answers := hanswered
      raised := congrArg Reckoning.raised htold
      delivered := congrArg Reckoning.delivered htold
      locked := by
        rw [show s'.running.ledger.locked = _ from congrArg Reckoning.locked htold]
        exact Occurrence.any_chainBreak? os
      appends := hcount (congrArg Reckoning.appends htold)
      rejections := hcount (congrArg Reckoning.rejections htold)
      contention := hcount (congrArg Reckoning.contention htold)
      chainBreaks := hcount (congrArg Reckoning.chainBreaks htold) }

/-- Whatever happens to a ledger since it was opened, at every moment its alerts, its lock and its counts are
those that are due for what came to pass; and once it is locked it stays so. -/
theorem history_accounted {settings : Settings} {sink : Sink} {site site' : Site σ} {ledger : Ledger}
    (hopened : Ledger.opened settings sink site = (.ok ledger, site')) :
    (∀ ts, Accounted sink site (turns ⟨⟨ledger, site'⟩, []⟩ ts) (history ⟨⟨ledger, site'⟩, []⟩ ts)) ∧
      ∀ ts more, (turns ⟨⟨ledger, site'⟩, []⟩ ts).running.ledger.locked = true →
        (turns ⟨⟨ledger, site'⟩, []⟩ (ts ++ more)).running.ledger.locked = true := by
  have haccounted :=
    accounted_of_fresh (s := ⟨⟨ledger, site'⟩, []⟩) (List.forall_mem_nil _) rfl (Ledger.reckoning_of_opened hopened)
  refine ⟨haccounted, fun ts more hlocked => ?_⟩
  obtain ⟨t, b, hmem⟩ := (haccounted ts).locked.1 hlocked
  refine (haccounted (ts ++ more)).locked.2 ⟨t, b, ?_⟩
  rw [history_append]
  exact List.mem_append_left _ hmem

/-- An empty store whose disk is full once. -/
def fullSite : Site Flaky where
  store := ⟨.empty, [some (.storage "disk full")]⟩
  now := 0
  journal := []
  alerts := []

/-- A row in the place of another. -/
def misplaced : Row := ⟨.signals, 2, Uuid.made 1 1, Uuid.made 2 1, [], Chain.genesis .signals⟩

/-- What is bought on the signal. -/
def order : Submission where
  caller := ⟨"router", .execution⟩
  draws := ⟨Uuid.made 1 2, []⟩
  request := .execution {
    correlationId := Uuid.made 2 1
    kind := .market
    symbol := "BTCUSD"
    side := .buy
    quantity := .text "0.5"
    price := none
    externalOrderId := none
    status := .submitted }
  fits := by constructor <;> simp [Text.Storable]; decide

/-- Somebody asks to take the signal back. -/
def withdrawal : Mutation := ⟨.signals, .delete, 1, ⟨"gateway", .ingestion⟩⟩

/-- A signal is not stored, is stored when it comes again, and is turned down when it comes a third time. The order
for it never gets hold of its table, and the signal is not taken back. Then somebody writes a row of his own, and it
is found. -/
def eventful : List (Turn Flaky) :=
  [.event (.append alert) trivial, .event (.append alert) trivial, .event (.append alert) trivial,
    .event (.hold .orderExecutions) trivial, .event (.append order) trivial, .event (.query (.mutate withdrawal)) trivial,
    .tamper ⟨Memory.empty.push misplaced, []⟩, .event (.query (.verifyChain .signals)) trivial]

/-- The answer to the signal that is stored. -/
def alertReceipt : Receipt := (Engine.follow (.empty .signals) 0 (Uuid.made 1 1) (.signal (alerted 1))).receipt

/-- What is wrong with the row of his own. -/
def misplacedBreak : Chain.Break :=
  ⟨.signals, 1, Uuid.made 1 1, Chain.link (Chain.genesis .signals) [], Chain.genesis .signals, .position⟩

/-- What came to pass. -/
def passed : List Occurrence :=
  let full := .storage "disk full"
  let busy := .contended .orderExecutions (.ofMillis 5)
  [.attempted .signals (.error full), .appended .signals 1 (.error full), .attempted .signals (.ok alertReceipt),
    .appended .signals 1 (.ok alertReceipt), .declined .signals (.duplicateSignal "alert-1"),
    .attempted .orderExecutions (.error busy), .attempted .orderExecutions (.error busy),
    .attempted .orderExecutions (.error busy), .appended .orderExecutions 3 (.error busy),
    .refused (.immutable .signals .delete), .verified .signals (.broken misplacedBreak)]

theorem history_accounted_eventful :
    ∃ (ledger : Ledger) (site : Site Flaky),
      Ledger.opened {} .channel fullSite = (.ok ledger, site) ∧
      Accounted .channel fullSite (turns ⟨⟨ledger, site⟩, []⟩ eventful) passed ∧
      (turns ⟨⟨ledger, site⟩, []⟩ eventful).running.site.alerts =
        [.hotPathPersistence .signals "Storage error: disk full",
          .retriesExhausted .orderExecutions 3 "append to order_executions contended for more than 5ms",
          .chainIntegrity .signals 1 misplacedBreak.expected misplacedBreak.actual] ∧
      (turns ⟨⟨ledger, site⟩, []⟩ eventful).running.ledger.locked = true ∧
      ∀ more, (turns ⟨⟨ledger, site⟩, []⟩ (eventful ++ more)).running.ledger.locked = true := by
  let ledger : Ledger := .fresh {} .channel
  let site : Site Flaky := (Ledger.opened {} .channel fullSite).2
  have hopened : Ledger.opened {} .channel fullSite = (.ok ledger, site) := rfl
  obtain ⟨haccounted, hstays⟩ := history_accounted hopened
  have htold := haccounted eventful
  rw [show history ⟨⟨ledger, site⟩, []⟩ eventful = passed by decide +kernel] at htold
  have hlocked := htold.locked.2 ⟨.signals, misplacedBreak, by simp [passed]⟩
  exact ⟨ledger, site, hopened, htold, htold.delivered.trans (by decide +kernel), hlocked,
    fun more => hstays eventful more hlocked⟩

end Session

end TradeLedger

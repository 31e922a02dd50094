/-
All that an event can do to a session. A call is made or takes a step, the clock or the holder of a
table changes, or the ledger is opened again; an append is several steps, and to ask is no move at
all. An invariant of sessions is one that every move keeps.
-/
import TradeLedger.Proofs.Ledger.Opening
import TradeLedger.Proofs.Session.Step
import TradeLedger.Proofs.Session.Whole

namespace TradeLedger

/-- What happens to the facts and the calls of a session. -/
inductive Move : Facts → List Call → Facts → List Call → Prop where
  | call {x calls} (c : Submission) : Move x calls x (calls ++ [⟨c, .asked⟩])
  | step {x x' : Facts} {calls : List Call} {i : ℕ} {c : Call} {p : Phase} : calls[i]? = some c →
      Phase.Step c.submission c.phase x p x' → Move x calls x' (calls.set i { c with phase := p })
  | clock {x calls} (now : Instant) : Move x calls { x with now } calls
  | held {x calls} (t : Table) (held : Bool) : (held = false → ∀ c ∈ calls, c.phase.holds t = false) →
      Move x calls { x with engine.held := x.engine.held.set t held } calls
  | reopened {x calls} (settings : Settings) (sink : Sink) : (∀ c ∈ calls, c.phase.isDone = true) →
      Move x calls
        { x with
          settings
          sink
          engine := ⟨x.engine.tails, .ofFn fun _ => false, settings.chain.lockTimeout⟩
          index := .ofMemory x.memory
          locked := false } calls

/-- Move after move. -/
inductive Moves (x : Facts) (calls : List Call) : Facts → List Call → Prop where
  | refl : Moves x calls x calls
  | tail {x' calls' x'' calls''} : Moves x calls x' calls' → Move x' calls' x'' calls'' → Moves x calls x'' calls''

namespace Moves

variable {x x' x'' : Facts} {calls calls' calls'' : List Call}

theorem single (h : Move x calls x' calls') : Moves x calls x' calls' := .tail .refl h

theorem trans (h : Moves x calls x' calls') (h' : Moves x' calls' x'' calls'') : Moves x calls x'' calls'' := by
  induction h' with
  | refl => exact h
  | tail _ hmove ih => exact ih.tail hmove

/-- What every move keeps is kept. -/
theorem keeps {P : Facts → List Call → Prop} (h : Moves x calls x' calls')
    (hmove : ∀ {x x' calls calls'}, Move x calls x' calls' → P x calls → P x' calls') (hP : P x calls) :
    P x' calls' := by
  induction h with
  | refl => exact hP
  | tail _ h ih => exact hmove h ih

end Moves

/-- No move takes back a row. -/
theorem Move.keeps_rows {x x' : Facts} {calls calls' : List Call} (h : Move x calls x' calls') (t : Table) :
    x.memory.rows.get t <+: x'.memory.rows.get t := by
  cases h with
  | step _ hstep => exact hstep.keeps_rows t
  | call _ | clock _ | held _ _ _ | reopened _ _ _ => exact List.prefix_refl _

theorem Moves.keeps_rows {x x' : Facts} {calls calls' : List Call} (h : Moves x calls x' calls') (t : Table) :
    x.memory.rows.get t <+: x'.memory.rows.get t := by
  induction h with
  | refl => exact List.prefix_refl _
  | tail _ hmove ih => exact ih.trans (hmove.keeps_rows t)

/-! ## Events -/

namespace Query

/-- Asking a ledger whose chains hold only makes it tell. -/
theorem facts_ask {w : Running Flaky}
    (h : ∀ t, Chain.Linked t (w.facts.memory.rows.get t) (w.facts.engine.tails.get t)) (q : Query) :
    (q.ask w).facts = w.facts := by
  cases q with
  | verifyChain t => rw [ask, Work.verifyChain_intact (h t).verify, Running.facts_note]
  | verifyAll =>
    obtain ⟨w', hw, hfacts⟩ := Work.verifyAll_intact fun t => (h t).verify
    rw [ask, hw, hfacts]
  | byCorrelation id => exact Work.tells_byCorrelation id w
  | byDedupeKey dedupeKey => exact Work.tells_byDedupeKey dedupeKey w
  | eventsOf executionId => exact Work.tells_linked .orderEvents executionId w
  | records t => exact Work.tells_records t w
  | mutate m => exact Work.tells_mutate m w

end Query

namespace Session

variable {s : Session Flaky}

/-- One session comes from another by moves. -/
def Reaches (s s' : Session Flaky) : Prop := Moves s.running.facts s.calls s'.running.facts s'.calls

theorem reaches_advance (s : Session Flaky) (i : ℕ) : s.Reaches (s.advance i) := by
  unfold advance
  split
  · exact .refl
  · rename_i c hc
    exact .single (.step hc (Phase.step_advance c.submission s.running c.phase))

theorem reaches_iterate_advance (i n : ℕ) (s : Session Flaky) : s.Reaches ((advance i)^[n] s) := by
  induction n generalizing s with
  | zero => exact .refl
  | succ n ih => exact (reaches_advance s i).trans (ih (s.advance i))

theorem reaches_append (s : Session Flaky) (c : Submission) : s.Reaches (s.append c) := by
  obtain ⟨n, hn⟩ := append_eq_iterate s c
  rw [hn]
  exact Moves.trans (.single (.call c)) (reaches_iterate_advance s.calls.length n (s.call c))

theorem reaches_reopen
    (h : ∀ t, Chain.Linked t (s.running.facts.memory.rows.get t) (s.running.facts.engine.tails.get t))
    (hq : s.quiet = true) (settings : Settings) (sink : Sink) : s.Reaches (s.reopen settings sink) := by
  obtain ⟨w, hopened, hw⟩ := Ledger.opened_of_linked h settings sink
  unfold Reaches reopen
  simp only [hopened]
  show Moves s.running.facts s.calls w.facts s.calls
  rw [hw]
  exact .single (.reopened settings sink (List.all_eq_true.1 hq))

/-- Every event of a session whose chains hold is made of moves. -/
theorem reaches_step
    (h : ∀ t, Chain.Linked t (s.running.facts.memory.rows.get t) (s.running.facts.engine.tails.get t)) (e : Event) :
    s.Reaches (s.step e) := by
  cases e with
  | call c => exact .single (.call c)
  | advance i => exact reaches_advance s i
  | append c => exact reaches_append s c
  | query q =>
    show Moves s.running.facts s.calls (q.ask s.running).facts s.calls
    rw [q.facts_ask h]
    exact .refl
  | clock now => exact .single (.clock now)
  | hold t => exact .single (.held t true nofun)
  | free t =>
    rw [step]
    split
    · exact .refl
    · rename_i hfree
      refine .single (.held t false fun _ c hc => ?_)
      rw [Bool.not_eq_true, inFlight, List.any_eq_false] at hfree
      exact Bool.eq_false_iff.2 (hfree c hc)
  | reopen settings sink =>
    rw [step]
    split
    · exact reaches_reopen h ‹_› settings sink
    · exact .refl

end Session

end TradeLedger

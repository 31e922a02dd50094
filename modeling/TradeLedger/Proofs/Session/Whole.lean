/-
A call whose steps follow one another, with nothing between them, is an append: the same answer, and
the same ledger and site. So what holds after every step of every session holds after every append.
-/
import TradeLedger.Proofs.Ledger.Work
import TradeLedger.Proofs.Session

namespace TradeLedger

variable {σ : Type} [Store σ]

/-! ## Steps that follow one another -/

namespace Phase

/-- A call gets from one state to another without interruption. -/
def Reaches (c : Submission) (a b : Phase × Running σ) : Prop := ∃ n, (fun x => advance c x.1 x.2)^[n] a = b

namespace Reaches

variable {c : Submission} {x y z : Phase × Running σ}

theorem refl (x : Phase × Running σ) : Reaches c x x := ⟨0, rfl⟩

theorem trans (h : Reaches c x y) (h' : Reaches c y z) : Reaches c x z := by
  obtain ⟨m, rfl⟩ := h
  obtain ⟨n, rfl⟩ := h'
  exact ⟨n + m, Function.iterate_add_apply ..⟩

theorem step (p : Phase) (w : Running σ) : Reaches c (p, w) (advance c p w) := ⟨1, rfl⟩

end Reaches

/-- From its first step to its last, an attempt is one of the engine. -/
theorem reaches_attempt (c : Submission) (e : Errand) (left attempts : Nat) (w : Running σ) :
    Reaches c (.ready e left attempts, w) (.tried e (w.attempt e).1 left attempts, (w.attempt e).2) := by
  refine (Reaches.step _ _).trans ?_
  cases h : w.ledger.engine.stamp w.site.now e.recordId e.body with
  | error f =>
    simp only [advance, Running.attempt, Engine.append, h]
    exact .refl _
  | ok p =>
    obtain ⟨s, engine⟩ := p
    simp only [advance, Running.attempt, Engine.append, h]
    exact Reaches.step _ _

/-- Attempt after attempt, until no more follows. -/
theorem reaches_retry (c : Submission) {e : Errand} (he : e.reservation = none) (left attempts : Nat)
    (r : Except Failure Receipt) (w : Running σ) :
    Reaches c (.tried e r left attempts, w) (.done (Running.retry e left attempts r w).1,
      ((Running.retry e left attempts r w).2.register e.body (Running.retry e left attempts r w).1).observe e.body.table
        (Running.retry e left attempts r w).1) := by
  -- `retry` repeats on what is left, and so do the steps: one attempt, and the rest from there
  induction left generalizing attempts r w with
  | zero =>
    convert Reaches.step (.tried e r 0 attempts) w using 1
    cases r <;> simp [advance, conclude, he, Running.retry]
  | succ left ih =>
    cases r with
    | ok receipt =>
      convert Reaches.step (.tried e (.ok receipt) (left + 1) attempts) w using 1
      simp [advance, conclude, he, Running.retry]
    | error f =>
      by_cases hf : f.retryable
      · have hstep : Reaches c (.tried e (.error f) (left + 1) attempts, w)
            (.ready e left (attempts + 1), w.again e.body.table attempts f) := by
          convert Reaches.step (.tried e (.error f) (left + 1) attempts) w using 1
          simp [advance, conclude, he, hf]
        have hnext := ih (attempts + 1) ((w.again e.body.table attempts f).attempt e).1
          ((w.again e.body.table attempts f).attempt e).2
        simp only [Running.retry, hf, if_true]
        exact (hstep.trans (reaches_attempt c e left (attempts + 1) _)).trans hnext
      · convert Reaches.step (.tried e (.error f) (left + 1) attempts) w using 1
        simp [advance, conclude, he, hf, Running.retry, Running.register]

/-- What follows the first attempt. -/
theorem reaches_conclude (c : Submission) (e : Errand) (r : Except Failure Receipt) (w : Running σ) :
    Reaches c (.tried e r (w.ledger.settings.retry.maxAttempts - 1) 1, w)
      (.done (w.conclude e r).1, (w.conclude e r).2.observe e.body.table (w.conclude e r).1) := by
  cases he : e.reservation with
  | some res =>
    convert Reaches.step (.tried e r (w.ledger.settings.retry.maxAttempts - 1) 1) w using 1
    simp [advance, conclude, he, Running.conclude]
  | none =>
    have := reaches_retry c he (w.ledger.settings.retry.maxAttempts - 1) 1 r w
    simpa only [Running.conclude, he] using this

/-- From its first step to its last, a call is an append. -/
theorem reaches_append (c : Submission) (w : Running σ) :
    Reaches c (.asked, w)
      (.done (w.append c.caller c.draws c.request).1, (w.append c.caller c.draws c.request).2) := by
  -- step by step; wherever the call ends early, the append does so too
  have hprepare := bind_apply (Work.vet c.caller c.request) (Work.engage c.draws) w
  have hvet := Reaches.step (c := c) .asked w
  cases hv : Work.vet c.caller c.request w with
  | mk answer w₁ =>
  rw [hv] at hprepare
  cases answer with
  | error f =>
    simp only [advance, hv] at hvet
    simpa only [Running.append, Running.launch, Work.prepare, hprepare] using hvet
  | ok entry =>
  simp only [advance, hv] at hvet
  have hengage := hvet.trans (Reaches.step (.vetted entry) w₁)
  cases he : Work.engage c.draws entry w₁ with
  | mk answer w₂ =>
  simp only [he] at hprepare
  cases answer with
  | error f =>
    simp only [advance, he] at hengage
    simpa only [Running.append, Running.launch, Work.prepare, hprepare] using hengage
  | ok e =>
  simp only [advance, he] at hengage
  have hstamp := hengage.trans (Reaches.step (.ready e (w₂.ledger.settings.retry.maxAttempts - 1) 1) w₂)
  cases hs : w₂.ledger.engine.stamp w₂.site.now e.recordId e.body with
  | error f =>
    simp only [advance, hs] at hstamp
    have hconclude := hstamp.trans (reaches_conclude c e (.error f) w₂)
    simpa only [Running.append, Running.launch, Work.prepare, hprepare, hs] using hconclude
  | ok p =>
    obtain ⟨s, engine⟩ := p
    simp only [advance, hs] at hstamp
    have hcomplete := hstamp.trans (Reaches.step _ _)
    have hconclude := hcomplete.trans (reaches_conclude c e
      (Running.complete { w₂ with ledger.engine := engine } s).1
      (Running.complete { w₂ with ledger.engine := engine } s).2)
    simpa only [Running.append, Running.launch, Work.prepare, hprepare, hs, Running.land] using hconclude

end Phase

/-! ## Sessions -/

namespace Session

/-- The last call takes its steps, and no other call or anything else changes. -/
theorem iterate_advance_last (calls : List Call) (c : Submission) (n : Nat) (x : Phase × Running σ) :
    (advance calls.length)^[n] ⟨x.2, calls ++ [⟨c, x.1⟩]⟩ =
      ⟨((fun x => Phase.advance c x.1 x.2)^[n] x).2,
        calls ++ [⟨c, ((fun x => Phase.advance c x.1 x.2)^[n] x).1⟩]⟩ := by
  have hadvance (p : Phase) (w : Running σ) :
      advance calls.length ⟨w, calls ++ [⟨c, p⟩]⟩ = ⟨(p.advance c w).2, calls ++ [⟨c, (p.advance c w).1⟩]⟩ := by
    simp [advance]
  induction n generalizing x with
  | zero => rfl
  | succ n ih => rw [Function.iterate_succ_apply, hadvance, Function.iterate_succ_apply, ← ih]

/-- An append is a call that is made and then advanced until it is done. -/
theorem append_eq_iterate (s : Session σ) (c : Submission) :
    ∃ n, s.append c = (advance s.calls.length)^[n] (s.call c) := by
  obtain ⟨n, hn⟩ := Phase.reaches_append c s.running
  have hiterate := iterate_advance_last s.calls c n (.asked, s.running)
  rw [hn] at hiterate
  exact ⟨n, hiterate.symm⟩

end Session

end TradeLedger

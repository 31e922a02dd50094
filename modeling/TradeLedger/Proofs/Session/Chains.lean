/-
The chains hold over whole sessions. Whatever calls are made, however their steps interleave,
whichever appends fail and whatever the clock shows: every table verifies, the engine stands where
its rows end, no committed row changes, and nothing is ever locked.

The invariant ties the rows of each table to the end that the engine knows (`linked`), and says of a
row on its way to the store that its table is held and that it was stamped for the end that is still
there (`flight`). Both are needed for the one step that stores a row; a table that is held is held
by one row only (`apart`).
-/
import TradeLedger.Proofs.Engine
import TradeLedger.Proofs.Session.Moves

namespace TradeLedger

/-! ## Rows on their way to the store -/

/-- The call at this place has a row on its way to the store. -/
def Flies (calls : List Call) (i : Nat) (e : Errand) (s : Stamp) : Prop :=
  ∃ c left attempts, calls[i]? = some c ∧ c.phase = .flying e s left attempts

section Flies

variable {calls : List Call} {c : Call} {i j : Nat} {e : Errand} {s : Stamp}

/-- After a step of one call, what flies is the row of that call or flew before. -/
theorem Flies.of_set {p : Phase} (h : Flies (calls.set i { c with phase := p }) j e s) :
    (j = i ∧ ∃ left attempts, p = .flying e s left attempts) ∨ (j ≠ i ∧ Flies calls j e s) := by
  obtain ⟨d, left, attempts, hd, hp⟩ := h
  rw [List.getElem?_set] at hd
  split at hd
  · rename_i hij
    split at hd
    · cases hd
      exact .inl ⟨hij.symm, left, attempts, hp⟩
    · cases hd
  · rename_i hij
    exact .inr ⟨Ne.symm hij, d, left, attempts, hd, hp⟩

theorem Flies.of_append {p : Phase} {sub : Submission} (hp : ∀ left attempts, p ≠ .flying e s left attempts)
    (h : Flies (calls ++ [⟨sub, p⟩]) i e s) : Flies calls i e s := by
  obtain ⟨d, left, attempts, hd, hdp⟩ := h
  rw [List.getElem?_append] at hd
  split at hd
  · exact ⟨d, left, attempts, hd, hdp⟩
  · rw [List.getElem?_singleton] at hd
    split at hd
    · cases hd
      exact absurd hdp (hp left attempts)
    · cases hd

end Flies

/-! ## The invariant -/

/-- What holds of the facts and the calls at every moment of a session. -/
structure Chained (x : Facts) (calls : List Call) : Prop where
  linked : ∀ t, Chain.Linked t (x.memory.rows.get t) (x.engine.tails.get t)
  origin : ∀ c ∈ calls, c.phase.From c.submission
  flight : ∀ i e s, Flies calls i e s → x.engine.held.get e.body.table = true ∧
    ∃ now, s = Engine.follow (x.engine.tails.get e.body.table) now e.recordId e.body
  apart : ∀ i j e e' s s', Flies calls i e s → Flies calls j e' s' → e.body.table = e'.body.table → i = j
  unlocked : x.locked = false

namespace Chained

variable {x x' : Facts} {calls : List Call} {c : Call} {i : Nat}

/-- Rows that are linked, and no calls yet. -/
theorem start (hlinked : ∀ t, Chain.Linked t (x.memory.rows.get t) (x.engine.tails.get t))
    (hlocked : x.locked = false) : Chained x [] := by
  refine ⟨hlinked, by simp, ?_, ?_, hlocked⟩
  · rintro i e s ⟨c, _, _, hc, -⟩; cases hc
  · rintro i j e e' s s' ⟨c, _, _, hc, -⟩; cases hc

/-- What is on its way to the store comes from its call. -/
theorem becomes {e : Errand} {s : Stamp} {left attempts : Nat} (h : Chained x calls) (hc : calls[i]? = some c)
    (hphase : c.phase = .flying e s left attempts) : c.submission.Becomes e := by
  have := h.origin c (List.mem_of_getElem? hc)
  rwa [hphase] at this

theorem origin_set {p : Phase} (h : Chained x calls) (hp : p.From c.submission) :
    ∀ d ∈ calls.set i { c with phase := p }, d.phase.From d.submission := by
  intro d hd
  rcases List.mem_or_eq_of_mem_set hd with hd | rfl
  · exact h.origin d hd
  · exact hp

/-- A step that neither stamps nor ends a flight, and touches neither rows nor engine. -/
theorem keep {p : Phase} (h : Chained x calls) (hp : p.From c.submission)
    (hfly : ∀ e s left attempts, p ≠ .flying e s left attempts) (hengine : x'.engine = x.engine)
    (hmemory : x'.memory = x.memory) (hlocked : x'.locked = x.locked) :
    Chained x' (calls.set i { c with phase := p }) := by
  have hold {j : Nat} {e : Errand} {s : Stamp} (hj : Flies (calls.set i { c with phase := p }) j e s) :
      Flies calls j e s := by
    rcases hj.of_set with ⟨-, left, attempts, hp⟩ | ⟨-, hj⟩
    · exact absurd hp (hfly e s left attempts)
    · exact hj
  refine ⟨?_, h.origin_set hp, ?_, ?_, hlocked.trans h.unlocked⟩
  · rw [hengine, hmemory]; exact h.linked
  · rw [hengine]; exact fun j e s hj => h.flight j e s (hold hj)
  · exact fun j k e e' s s' hj hk => h.apart j k e e' s s' (hold hj) (hold hk)

/-- A free table is held for a row that is stamped for its end. -/
theorem stamp {e : Errand} (left attempts : Nat) (h : Chained x calls) (hp : c.submission.Becomes e)
    (hfree : x.engine.held.get e.body.table = false) :
    Chained { x with engine.held := x.engine.held.set e.body.table true }
      (calls.set i ⟨c.submission,
        .flying e (Engine.follow (x.engine.tails.get e.body.table) x.now e.recordId e.body) left attempts⟩) := by
  have hother {j : Nat} {e' : Errand} {s' : Stamp} (hj : Flies calls j e' s') : e'.body.table ≠ e.body.table := by
    intro ht
    have := (h.flight j e' s' hj).1
    rw [ht, hfree] at this
    cases this
  refine ⟨h.linked, h.origin_set hp, ?_, ?_, h.unlocked⟩
  · intro j e' s' hj
    rcases hj.of_set with ⟨-, left', attempts', hphase⟩ | ⟨-, hj⟩
    · cases hphase
      exact ⟨PerTable.get_set_self .., x.now, rfl⟩
    · rw [PerTable.get_set_ne _ _ (hother hj)]
      exact h.flight j e' s' hj
  · intro j k e₁ e₂ s₁ s₂ hj hk ht
    rcases hj.of_set with ⟨rfl, _, _, hpj⟩ | ⟨-, hj'⟩ <;> rcases hk.of_set with ⟨rfl, _, _, hpk⟩ | ⟨-, hk'⟩
    · rfl
    · cases hpj
      exact absurd ht.symm (hother hk')
    · cases hpk
      exact absurd ht (hother hj')
    · exact h.apart j k e₁ e₂ s₁ s₂ hj' hk' ht

/-- A flight ends, and only its own table is another. -/
theorem land {e : Errand} {s : Stamp} {left attempts : Nat} {r : Except Failure Receipt} (h : Chained x calls)
    (hc : calls[i]? = some c) (hphase : c.phase = .flying e s left attempts)
    (hlinked : ∀ t, Chain.Linked t (x'.memory.rows.get t) (x'.engine.tails.get t))
    (hheld : ∀ t, t ≠ e.body.table → x'.engine.held.get t = x.engine.held.get t)
    (htails : ∀ t, t ≠ e.body.table → x'.engine.tails.get t = x.engine.tails.get t) (hlocked : x'.locked = x.locked) :
    Chained x' (calls.set i { c with phase := .tried e r left attempts }) := by
  have hi : Flies calls i e s := ⟨c, left, attempts, hc, hphase⟩
  have hold {j : Nat} {e' : Errand} {s' : Stamp}
      (hj : Flies (calls.set i { c with phase := .tried e r left attempts }) j e' s') :
      Flies calls j e' s' ∧ e'.body.table ≠ e.body.table := by
    rcases hj.of_set with ⟨-, _, _, hpj⟩ | ⟨hne, hj⟩
    · cases hpj
    · exact ⟨hj, fun ht => hne (h.apart j i e' e s' s hj hi ht)⟩
  refine ⟨hlinked, h.origin_set (h.becomes hc hphase), ?_, ?_, hlocked.trans h.unlocked⟩
  · intro j e' s' hj
    obtain ⟨hj, hne⟩ := hold hj
    rw [hheld _ hne, htails _ hne]
    exact h.flight j e' s' hj
  · exact fun j k e₁ e₂ s₁ s₂ hj hk => h.apart j k e₁ e₂ s₁ s₂ (hold hj).1 (hold hk).1

/-- The row that is stored follows the last, and the engine moves to it. -/
theorem store {e : Errand} {s : Stamp} {left attempts : Nat} {r : Except Failure Receipt} (h : Chained x calls)
    (hc : calls[i]? = some c) (hphase : c.phase = .flying e s left attempts)
    (hposition : s.row.position.toNat = (x.memory.rows.get s.row.table).length + 1) :
    Chained { x with engine := x.engine.settle s true, memory := x.memory.push s.row, faults := x.faults.tail }
      (calls.set i { c with phase := .tried e r left attempts }) := by
  obtain ⟨-, now, hs⟩ := h.flight i e s ⟨c, left, attempts, hc, hphase⟩
  have htable : s.row.table = e.body.table := by rw [hs, Engine.table_follow]
  have hlinked := h.linked e.body.table
  rw [htable, ← hlinked.position_eq] at hposition
  -- a position that wrapped around would not be the one the store waits for
  have hroom : (x.engine.tails.get e.body.table).position + 1 < 2 ^ 64 := hposition ▸ s.row.position.toNat_lt
  refine h.land hc hphase (fun t => ?_) (fun t ht => ?_) (fun t ht => ?_) rfl
  · show Chain.Linked t ((x.memory.push s.row).rows.get t) ((x.engine.tails.set s.row.table s.tail).get t)
    rw [Memory.rows_push, htable]
    by_cases ht : t = e.body.table
    · subst ht
      rw [if_pos rfl, PerTable.get_set_self, hs, Engine.tail_follow _ _ hroom]
      exact hlinked.snoc (Engine.follows_follow now e.recordId (h.becomes hc hphase).storable hroom)
    · rw [if_neg ht, PerTable.get_set_ne _ _ ht]
      exact h.linked t
  · show (x.engine.held.set s.row.table false).get t = _
    rw [htable, PerTable.get_set_ne _ _ ht]
  · show (x.engine.tails.set s.row.table s.tail).get t = _
    rw [htable, PerTable.get_set_ne _ _ ht]

/-- The row that is not stored leaves the end where it was. -/
theorem lose {e : Errand} {s : Stamp} {left attempts : Nat} {r : Except Failure Receipt} (h : Chained x calls)
    (hc : calls[i]? = some c) (hphase : c.phase = .flying e s left attempts) :
    Chained { x with engine := x.engine.settle s false, faults := x.faults.tail }
      (calls.set i { c with phase := .tried e r left attempts }) := by
  obtain ⟨-, now, hs⟩ := h.flight i e s ⟨c, left, attempts, hc, hphase⟩
  have htable : s.row.table = e.body.table := by rw [hs, Engine.table_follow]
  refine h.land hc hphase h.linked (fun t ht => ?_) (fun _ _ => rfl) rfl
  show (x.engine.held.set s.row.table false).get t = _
  rw [htable, PerTable.get_set_ne _ _ ht]

/-- Every step of a call keeps the invariant. -/
theorem step {p : Phase} (h : Chained x calls) (hc : calls[i]? = some c)
    (hstep : Phase.Step c.submission c.phase x p x') : Chained x' (calls.set i { c with phase := p }) := by
  have hp : p.From c.submission := hstep.from (h.origin c (List.mem_of_getElem? hc))
  generalize hq : c.phase = q at hstep
  cases hstep with
  | stamped hfree => exact h.stamp _ _ hp hfree
  | stored hposition => exact h.store hc hq hposition
  | lost _ => exact h.lose hc hq
  -- the others touch neither rows nor engine
  | vetted _ | refused _ | engaged _ _ _ | reserved _ | unreserved _ | unengaged _ _ | contended _ | again _ _
  | concluded _ _ | registered _ _ | committed _ | released _ | idle => exact h.keep hp (by simp) rfl rfl rfl

/-- A call that is made has no row yet. -/
theorem call (h : Chained x calls) (sub : Submission) : Chained x (calls ++ [⟨sub, .asked⟩]) := by
  have hold {j : Nat} {e : Errand} {s : Stamp} (hj : Flies (calls ++ [⟨sub, .asked⟩]) j e s) : Flies calls j e s :=
    hj.of_append (by simp)
  refine ⟨h.linked, ?_, fun j e s hj => h.flight j e s (hold hj),
    fun j k e e' s s' hj hk => h.apart j k e e' s s' (hold hj) (hold hk), h.unlocked⟩
  intro d hd
  rcases List.mem_append.1 hd with hd | hd
  · exact h.origin d hd
  · cases List.mem_singleton.1 hd
    trivial

/-- Holding a table changes nothing for the rows in flight, nor does letting go of one that none of them holds. -/
theorem setHeld (h : Chained x calls) (t : Table) (held : Bool)
    (hfree : held = false → ∀ i e s, Flies calls i e s → e.body.table ≠ t) :
    Chained { x with engine.held := x.engine.held.set t held } calls := by
  refine ⟨h.linked, h.origin, fun i e s hi => ⟨?_, (h.flight i e s hi).2⟩, h.apart, h.unlocked⟩
  show (x.engine.held.set t held).get e.body.table = true
  by_cases ht : e.body.table = t
  · cases held with
    | true => rw [ht, PerTable.get_set_self]
    | false => exact absurd ht (hfree rfl i e s hi)
  · rw [PerTable.get_set_ne _ _ ht]
    exact (h.flight i e s hi).1

end Chained

/-- Every move keeps the invariant. -/
theorem Chained.move {x x' : Facts} {calls calls' : List Call} (h : Chained x calls) (hmove : Move x calls x' calls') :
    Chained x' calls' := by
  cases hmove with
  | call c => exact h.call c
  | step hc hstep => exact h.step hc hstep
  | clock now => exact ⟨h.linked, h.origin, h.flight, h.apart, h.unlocked⟩
  | held t held hfree =>
    refine h.setHeld t held fun hheld => ?_
    rintro i e st ⟨c, left, attempts, hc, hphase⟩ ht
    have := hfree hheld c (List.mem_of_getElem? hc)
    rw [hphase] at this
    simp [Phase.holds, ht] at this
  | reopened _ _ hdone =>
    have hnone : ∀ i e st, ¬ Flies calls i e st := by
      rintro i e st ⟨c, left, attempts, hc, hphase⟩
      have := hdone c (List.mem_of_getElem? hc)
      rw [hphase] at this
      cases this
    exact ⟨h.linked, h.origin, fun i e st hi => absurd hi (hnone i e st),
      fun i j e e' st st' hi => absurd hi (hnone i e st), rfl⟩

namespace Session

variable {s : Session Flaky}

/-- A session whose chains hold stays one, and all that happens in it is made of moves. -/
theorem run_chained (h : Chained s.running.facts s.calls) (events : List Event) :
    Chained (s.run events).running.facts (s.run events).calls ∧ s.Reaches (s.run events) := by
  induction events generalizing s with
  | nil => exact ⟨h, .refl⟩
  | cons e events ih =>
    have hstep := reaches_step h.linked e
    obtain ⟨h', hrun⟩ := ih (hstep.keeps (fun hmove h => h.move hmove) h)
    exact ⟨h', hstep.trans hrun⟩

/-! ## The chains of a session -/

/-- The rows of a table. -/
def rows (s : Session Flaky) (t : Table) : List Row := s.running.site.store.memory.rows.get t

/-- Where the engine stands. -/
def tail (s : Session Flaky) (t : Table) : Chain.Tail := s.running.ledger.engine.tails.get t

/-- Every table verifies and ends where the engine stands, which is what the last row says, and
nothing is locked. -/
structure Sound (s : Session Flaky) : Prop where
  verified : ∀ t, Chain.verify t (s.rows t) = .intact t (s.tail t)
  position : ∀ t, (s.tail t).position = (s.rows t).length
  last : ∀ t, (s.rows t = [] ∧ s.tail t = .empty t) ∨
    ∃ r e, (s.rows t).getLast? = some r ∧ Envelope.decode r.content = .ok e ∧
      (s.tail t).digest = r.digest ∧ (s.tail t).createdAt = e.createdAt
  unlocked : s.running.ledger.locked = false

theorem sound_of_chained (h : Chained s.running.facts s.calls) : s.Sound where
  verified t := (h.linked t).verify
  position t := (h.linked t).position_eq
  last t := by
    rcases (h.linked t).tail_eq with ⟨hrows, htail⟩ | ⟨r, e, hlast, hdecode, -, -, -, htail⟩
    · exact .inl ⟨hrows, htail⟩
    · refine .inr ⟨r, e, hlast, hdecode, ?_, ?_⟩ <;>
        simp only [tail, show s.running.ledger.engine = s.running.facts.engine from rfl, htail]
  unlocked := h.unlocked

/-- A ledger opens over every store whose tables verify, and from then on, whatever happens in
whatever order: every table verifies and ends where the engine stands, and every row that was ever
committed is still at its place, octet for octet. -/
theorem chains_hold (settings : Settings) (sink : Sink) (site : Site Flaky)
    (h : ∀ t, ∃ tail, Chain.verify t (site.store.memory.rows.get t) = .intact t tail) :
    ∃ w : Running Flaky, Ledger.opened settings sink site = (.ok w.ledger, w.site) ∧
      ∀ events, ((⟨w, []⟩ : Session Flaky).run events).Sound ∧
        (∀ t, site.store.memory.rows.get t <+: ((⟨w, []⟩ : Session Flaky).run events).rows t) ∧
        ∀ more t, ((⟨w, []⟩ : Session Flaky).run events).rows t <+:
          ((⟨w, []⟩ : Session Flaky).run (events ++ more)).rows t := by
  choose tail htail using h
  have hlinked (t : Table) : Chain.Linked t (site.store.memory.rows.get t) ((PerTable.ofFn tail).get t) := by
    rw [PerTable.get_ofFn]
    exact Chain.linked_of_verify (htail t)
  obtain ⟨w, hopened, hw⟩ := Ledger.opened_of_linked hlinked settings sink
  have hstart : Chained w.facts [] := by
    rw [hw]
    exact .start hlinked rfl
  refine ⟨w, hopened, fun events => ?_⟩
  obtain ⟨hchained, hreaches⟩ := run_chained (s := ⟨w, []⟩) hstart events
  refine ⟨sound_of_chained hchained, fun t => ?_, fun more t => ?_⟩
  · have := hreaches.keeps_rows t
    rwa [show (⟨w, []⟩ : Session Flaky).running.facts.memory = site.store.memory from congrArg Facts.memory hw] at this
  · rw [run, run, List.foldl_append]
    exact (run_chained hchained more).2.keeps_rows t

/-- An event from the start of 1970. -/
def firstEvent : Body := .event ⟨Uuid.made 2 1, .cancel, none, none, none, none, none, none⟩

/-- A store that holds the event, and fails the next append. -/
def startedSite : Site Flaky where
  store := ⟨Memory.empty.push (Engine.follow (.empty .orderEvents) 0 (Uuid.made 1 1) firstEvent).row,
    [some (.storage "disk full")]⟩
  now := 0
  journal := []
  alerts := []

theorem chains_hold_started :
    (∀ t, ∃ tail, Chain.verify t (startedSite.store.memory.rows.get t) = .intact t tail) ∧
      ∃ w : Running Flaky, Ledger.opened {} .log startedSite = (.ok w.ledger, w.site) ∧
        ∀ events, ((⟨w, []⟩ : Session Flaky).run events).Sound := by
  have hs : firstEvent.Storable := by constructor <;> simp
  have h (t : Table) : ∃ tail, Chain.verify t (startedSite.store.memory.rows.get t) = .intact t tail := by
    cases t with
    | orderEvents =>
      exact ⟨_, (Chain.Linked.snoc .nil (Engine.follows_follow 0 (Uuid.made 1 1) hs (by decide))).verify⟩
    | signals | deliberations | orderExecutions => exact ⟨.empty _, rfl⟩
  obtain ⟨w, hopened, hrun⟩ := chains_hold {} .log startedSite h
  exact ⟨h, w, hopened, fun events => (hrun events).1⟩

end Session

end TradeLedger

/-
The attempts at an errand that has nothing reserved. It is attempted again while it fails in a way that
may pass, up to as many times as the settings allow, and whoever else is at work in between: others may
take a table and let it go, and change the store and the clock, so that each attempt may end in any way.

What each attempt leaves to tell is carried along by its place in the loop. A failure that another
attempt follows is counted between the two, and the last one where the whole append is.
-/
import TradeLedger.Proofs.Session.Accounts

namespace TradeLedger

/-! ## Delays -/

namespace RetrySettings

variable (r : RetrySettings)

/-- Where the limit fits into 64 bits, it does not show that a product may not. -/
theorem backoff_eq (h : r.maxBackoffMillis ≤ largest) (retry : ℕ) :
    r.backoff retry = .ofMillis (min (r.backoffMillis * 2 ^ min (retry - 1) 16) r.maxBackoffMillis) := by
  have hmin (x : ℕ) : min (min x largest) r.maxBackoffMillis = min x r.maxBackoffMillis := by omega
  exact congrArg Duration.ofMillis (hmin _)

theorem backoff_mono {i j : ℕ} (h : i ≤ j) : (r.backoff i).nanoseconds ≤ (r.backoff j).nanoseconds := by
  have hpow : 2 ^ min (i - 1) 16 ≤ 2 ^ min (j - 1) 16 := Nat.pow_le_pow_right (by norm_num) (by omega)
  have hdoubled : r.backoffMillis * 2 ^ min (i - 1) 16 ≤ r.backoffMillis * 2 ^ min (j - 1) 16 :=
    Nat.mul_le_mul_left _ hpow
  apply Nat.mul_le_mul_right
  exact min_le_min_right _ (min_le_min_right _ hdoubled)

end RetrySettings

/-! ## What attempts leave to tell -/

/-- How long is waited, before jitter, and after which attempt. -/
def Notice.delay? : Notice → Option (ℕ × Duration)
  | .retrying _ attempt delay _ => some (attempt, delay)
  | _ => none

/-- What is told of attempts, and what they are told to do. -/
structure Toll where
  settings : Settings
  sink : Sink
  raised : List Alert
  delivered : List Alert
  contention : Tally Table
  retries : Tally Table
  delays : List (ℕ × Duration)

/-- The alert that is due for a last attempt. -/
def exhausted (t : Table) (attempts : ℕ) : Except Failure Receipt → List Alert
  | .error f => if f.Passing then [.retriesExhausted t attempts f.message] else []
  | .ok _ => []

namespace Running

section Toll

variable {σ : Type} (w : Running σ)

def toll : Toll where
  settings := w.ledger.settings
  sink := w.ledger.sink
  raised := w.site.raised
  delivered := w.site.alerts
  contention := w.ledger.metrics.contention
  retries := w.ledger.metrics.retries
  delays := w.site.journal.filterMap Notice.delay?

theorem toll_note {n : Notice} (h : n.alert? = none) (h' : n.delay? = none) : (w.note n).toll = w.toll := by
  simp [toll, note, Site.note, Site.raised, h, h']

theorem toll_raise (a : Alert) :
    (w.raise a).toll = { w.toll with
      raised := w.toll.raised ++ [a]
      delivered := w.toll.delivered ++ if w.toll.sink = .channel then [a] else [] } := by
  cases hsink : w.ledger.sink <;>
    simp [toll, raise, Site.raise, Site.note, Site.raised, Notice.alert?, Notice.delay?, hsink]

theorem toll_again (t : Table) (attempts : ℕ) (f : Failure) :
    (w.again t attempts f).toll = { w.toll with
      contention := if isContended (.error f) then w.toll.contention.add t else w.toll.contention
      retries := w.toll.retries.add t
      delays := w.toll.delays ++ [(attempts, w.toll.settings.retry.backoff attempts)] } := by
  cases hf : f.isContention <;>
    simp [toll, again, count, note, Site.note, Site.raised, Notice.alert?, Notice.delay?, hf] <;>
    exact ⟨rfl, rfl⟩

theorem toll_rest (t : Table) (attempts : ℕ) (r : Except Failure Receipt) :
    (w.rest t attempts r).toll = { w.toll with
      raised := w.toll.raised ++ exhausted t attempts r
      delivered := w.toll.delivered ++ if w.toll.sink = .channel then exhausted t attempts r else [] } := by
  cases r with
  | ok receipt =>
    simp only [rest, exhausted, ite_self, List.append_nil]
    split
    · exact w.toll_note rfl rfl
    · rfl
  | error f =>
    by_cases hf : f.Passing
    · simp [rest, exhausted, hf, toll_raise]
    · simp [rest, exhausted, hf]

theorem toll_register (body : Body) (r : Except Failure Receipt) : (w.register body r).toll = w.toll := by
  unfold register
  split <;> rfl

theorem toll_observe (t : Table) (r : Except Failure Receipt) :
    (w.observe t r).toll = { w.toll with
      contention := if isContended r then w.toll.contention.add t else w.toll.contention } := by
  cases r with
  | ok receipt => rfl
  | error f => cases hf : f.isContention <;> simp [observe, hf] <;> rfl

theorem toll_complete [Store σ] (s : Stamp) : (w.complete s).2.toll = w.toll := by
  have hput : (w.site.put s.row.table s.row).2.raised = w.site.raised ∧
      (w.site.put s.row.table s.row).2.alerts = w.site.alerts ∧
      (w.site.put s.row.table s.row).2.journal.filterMap Notice.delay? = w.site.journal.filterMap Notice.delay? := by
    unfold Site.put Site.ask
    cases Store.append s.row.table s.row w.site.store with
    | mk answer store => cases answer <;> simp [Site.raised, Site.note, Notice.alert?, Notice.delay?]
  unfold complete Engine.complete
  cases h : w.site.put s.row.table s.row with
  | mk answer site =>
    rw [h] at hput
    obtain ⟨hraised, halerts, hdelays⟩ := hput
    dsimp only at hraised halerts hdelays
    cases answer <;> simp only [toll, hraised, halerts, hdelays]

end Toll

end Running

/-! ## Attempts -/

/-- An attempt at an errand: under which identifier, with which row if it got hold of the table, and how the
engine answered. -/
structure Attempt where
  recordId : Uuid
  row : Option Row
  answer : Except Failure Receipt

namespace Attempt

/-- It failed in a way that may pass. -/
def Passing (a : Attempt) : Prop := ∃ f, a.answer = .error f ∧ f.Passing

/-- The row that it committed. -/
def committed? (a : Attempt) : Option Row :=
  match a.answer with
  | .ok _ => a.row
  | .error _ => none

theorem Passing.committed? {a : Attempt} (h : a.Passing) : a.committed? = none := by
  obtain ⟨f, hf, -⟩ := h
  rw [Attempt.committed?, hf]

/-- It is an attempt at this errand: if it was stored, then under the identifier of the errand. -/
structure Of (e : Errand) (a : Attempt) : Prop where
  recordId : a.recordId = e.recordId
  stored : ∀ receipt, a.answer = .ok receipt →
    ∃ r, a.row = some r ∧ r.recordId = e.recordId ∧ receipt.recordId = e.recordId

end Attempt

/-- The attempt that is over when a call goes from one phase to another. -/
def Phase.attempt? : Phase → Phase → Option Attempt
  | .ready e _ _, .tried _ r _ _ => some ⟨e.recordId, none, r⟩
  | .flying _ s _ _, .tried _ r _ _ => some ⟨s.row.recordId, some s.row, r⟩
  | _, _ => none

section Loop

variable {σ : Type} [Store σ]

/-- A call takes so many steps from a state, in which these attempts are over, while others do what they please
in between, so long as nothing is told of attempts but what is told of these. -/
inductive Amid (c : Submission) (x : Phase × Running σ) : ℕ → List Attempt → Phase → Running σ → Prop where
  | start : Amid c x 0 [] x.1 x.2
  | others {n : ℕ} {tries : List Attempt} {p : Phase} {w w' : Running σ} :
      Amid c x n tries p w → w'.toll = w.toll → Amid c x n tries p w'
  | step {n : ℕ} {tries : List Attempt} {p : Phase} {w : Running σ} : Amid c x n tries p w →
      Amid c x (n + 1) (tries ++ (Phase.attempt? p (p.advance c w).1).toList) (p.advance c w).1 (p.advance c w).2

/-- What is told is that of `x` after attempts that failed. -/
structure Toll.After (x : Toll) (t : Table) (tries : List Attempt) (y : Toll) : Prop where
  settings : y.settings = x.settings
  sink : y.sink = x.sink
  raised : y.raised = x.raised
  delivered : y.delivered = x.delivered
  contention : ∀ u, y.contention.count u = x.contention.count u +
    if u = t then tries.countP fun a => isContended a.answer else 0
  retries : ∀ u, y.retries.count u = x.retries.count u + if u = t then tries.length else 0
  delays : y.delays = x.delays ++ (List.range tries.length).map fun i => (i + 1, x.settings.retry.backoff (i + 1))

theorem Toll.After.start (x : Toll) (t : Table) : x.After t [] x where
  settings := rfl
  sink := rfl
  raised := rfl
  delivered := rfl
  contention := by simp
  retries := by simp
  delays := by simp

/-- What is told of an append whose last attempt was `last`. -/
structure Toll.Settled (x : Toll) (t : Table) (front : List Attempt) (last : Attempt) (y : Toll) : Prop where
  raised : y.raised = x.raised ++ exhausted t (front.length + 1) last.answer
  delivered : y.delivered =
    x.delivered ++ if x.sink = .channel then exhausted t (front.length + 1) last.answer else []
  contention : ∀ u, y.contention.count u = x.contention.count u +
    if u = t then (front ++ [last]).countP fun a => isContended a.answer else 0
  retries : ∀ u, y.retries.count u = x.retries.count u + if u = t then front.length else 0
  delays : y.delays = x.delays ++ (List.range front.length).map fun i => (i + 1, x.settings.retry.backoff (i + 1))

/-- How far the attempts at an errand have come, of which `most` are allowed. -/
inductive Underway (e : Errand) (most : ℕ) (x : Toll) : List Attempt → Phase → Toll → Prop where
  | ready {tries : List Attempt} {left : ℕ} {y : Toll} : (∀ a ∈ tries, a.Of e ∧ a.Passing) →
      tries.length + 1 + left = most → x.After e.body.table tries y →
      Underway e most x tries (.ready e left (tries.length + 1)) y
  | flying {tries : List Attempt} {s : Stamp} {left : ℕ} {y : Toll} : (∀ a ∈ tries, a.Of e ∧ a.Passing) →
      s.row.recordId = e.recordId → tries.length + 1 + left = most → x.After e.body.table tries y →
      Underway e most x tries (.flying e s left (tries.length + 1)) y
  | tried {front : List Attempt} {last : Attempt} {left : ℕ} {y : Toll} : (∀ a ∈ front, a.Of e ∧ a.Passing) →
      last.Of e → front.length + 1 + left = most → x.After e.body.table front y →
      Underway e most x (front ++ [last]) (.tried e last.answer left (front.length + 1)) y
  | done {front : List Attempt} {last : Attempt} {y : Toll} : (∀ a ∈ front, a.Of e ∧ a.Passing) →
      last.Of e → front.length + 1 ≤ most → (last.Passing → front.length + 1 = most) →
      x.Settled e.body.table front last y → Underway e most x (front ++ [last]) (.done last.answer) y

/-! ## The loop -/

omit [Store σ] in
/-- A row is stamped under the identifier that it is given. -/
theorem Engine.recordId_stamp {engine engine' : Engine} {now : Instant} {recordId : Uuid} {body : Body} {s : Stamp}
    (h : engine.stamp now recordId body = .ok (s, engine')) : s.row.recordId = recordId := by
  obtain ⟨before, -, h⟩ := Codec.bind_eq_ok h
  cases h
  rfl

/-- Once it is stored, the receipt of a row is answered. -/
theorem Running.receipt_complete {w : Running σ} {s : Stamp} {receipt : Receipt}
    (h : (w.complete s).1 = .ok receipt) : receipt = s.receipt := by
  unfold complete Engine.complete at h
  cases hput : w.site.put s.row.table s.row with
  | mk answer site =>
    rw [hput] at h
    cases answer <;> cases h
    rfl

namespace Underway

variable {c : Submission} {e : Errand} {most : ℕ} {x : Toll} {tries : List Attempt} {p : Phase} {w : Running σ}

omit [Store σ] in
/-- Between two attempts, the failure of the first is told. -/
theorem after_again {front : List Attempt} {last : Attempt} {f : Failure} (hf : last.answer = .error f)
    (h : x.After e.body.table front w.toll) :
    x.After e.body.table (front ++ [last]) (w.again e.body.table (front.length + 1) f).toll := by
  rw [w.toll_again]
  refine ⟨h.settings, h.sink, h.raised, h.delivered, fun u => ?_, fun u => ?_, ?_⟩
  · have hcount := h.contention u
    by_cases hu : u = e.body.table
    · cases hc : isContended (.error f) <;> simp [Tally.count_add, hf, hc, hu] at hcount ⊢ <;> omega
    · cases hc : isContended (.error f) <;> simp [Tally.count_add, hu, Ne.symm hu] at hcount ⊢ <;> exact hcount
  · have hcount := h.retries u
    by_cases hu : u = e.body.table
    · simp [Tally.count_add, hu] at hcount ⊢
      omega
    · simp [Tally.count_add, hu, Ne.symm hu] at hcount ⊢
      exact hcount
  · simp [h.delays, h.settings, List.range_succ]

omit [Store σ] in
/-- At the end, the last attempt and the append are told. -/
theorem settled_rest {front : List Attempt} {last : Attempt} (h : x.After e.body.table front w.toll) :
    x.Settled e.body.table front last
      (((w.rest e.body.table (front.length + 1) last.answer).register e.body last.answer).observe e.body.table
        last.answer).toll := by
  rw [Running.toll_observe, Running.toll_register, Running.toll_rest]
  refine ⟨?_, ?_, fun u => ?_, h.retries, h.delays⟩
  · rw [← h.raised]
  · rw [← h.delivered, ← h.sink]
  · have hcount := h.contention u
    by_cases hu : u = e.body.table
    · cases hc : isContended last.answer <;> simp [Tally.count_add, hc, hu] at hcount ⊢ <;> omega
    · cases hc : isContended last.answer <;> simp [Tally.count_add, hu, Ne.symm hu] at hcount ⊢ <;> exact hcount

/-- A step of the call keeps to the loop. -/
theorem step (he : e.reservation = none) (h : Underway e most x tries p w.toll) :
    Underway e most x (tries ++ (Phase.attempt? p (p.advance c w).1).toList) (p.advance c w).1
      (p.advance c w).2.toll := by
  generalize hy : w.toll = y at h
  cases h with
  | @ready _ left _ hfront hmost hafter =>
    subst hy
    cases hs : w.ledger.engine.stamp w.site.now e.recordId e.body with
    | error f =>
      simp only [Phase.advance, hs]
      have hof : Attempt.Of e ⟨e.recordId, none, .error f⟩ := ⟨rfl, fun receipt h => by cases h⟩
      exact .tried hfront hof hmost hafter
    | ok q =>
      obtain ⟨s, engine⟩ := q
      simp only [Phase.advance, hs, Phase.attempt?, Option.toList_none, List.append_nil]
      exact .flying hfront (Engine.recordId_stamp hs) hmost hafter
  | @flying _ s left _ hfront hrecord hmost hafter =>
    subst hy
    have hof : Attempt.Of e ⟨s.row.recordId, some s.row, (w.complete s).1⟩ := by
      refine ⟨hrecord, fun receipt h => ⟨s.row, rfl, hrecord, ?_⟩⟩
      rw [Running.receipt_complete h]
      exact hrecord
    have htold := w.toll_complete s
    simp only [Phase.advance, htold]
    exact .tried hfront hof hmost hafter
  | @tried front last left _ hfront hlast hmost hafter =>
    subst hy
    rcases Phase.conclude_cases he last.answer left (front.length + 1) w with
      ⟨left', f, hf, hpassing, rfl, h⟩ | ⟨hstop, h⟩
    · simp only [Phase.advance, h, Phase.attempt?, Option.toList_none, List.append_nil]
      have hall : ∀ a ∈ front ++ [last], a.Of e ∧ a.Passing := by
        intro a ha
        rcases List.mem_append.1 ha with ha | ha
        · exact hfront a ha
        · cases List.mem_singleton.1 ha
          exact ⟨hlast, f, hf, hpassing⟩
      have hlength : (front ++ [last]).length = front.length + 1 := List.length_append
      have hleft : (front ++ [last]).length + 1 + left' = most := by omega
      have hready := Underway.ready hall hleft (after_again hf hafter)
      rwa [hlength] at hready
    · simp only [Phase.advance, h, Phase.attempt?, Option.toList_none, List.append_nil]
      refine .done hfront hlast (by omega) ?_ (settled_rest hafter)
      rintro ⟨f, hf, hpassing⟩
      have := hstop f hf hpassing
      omega
  | done hfront hlast hmost hstop hsettled =>
    subst hy
    simp only [Phase.advance, Phase.attempt?, Option.toList_none, List.append_nil]
    exact .done hfront hlast hmost hstop hsettled

end Underway

/-- How many attempts at an errand are allowed. One always is. -/
def Running.most (w : Running σ) : ℕ := max w.ledger.settings.retry.maxAttempts 1

/-- Where the attempts at an errand start. -/
def Phase.first (e : Errand) (w : Running σ) : Phase := .ready e (w.ledger.settings.retry.maxAttempts - 1) 1

variable {c : Submission} {e : Errand} {w₀ w : Running σ} {n : ℕ} {tries : List Attempt} {p : Phase}

/-- However many steps were taken, and whatever others did in between, the attempts are those of the loop. -/
theorem Amid.underway (he : e.reservation = none) (h : Amid c (Phase.first e w₀, w₀) n tries p w) :
    Underway e w₀.most w₀.toll tries p w.toll := by
  induction h with
  | start =>
    have hmost : 0 + 1 + (w₀.ledger.settings.retry.maxAttempts - 1) = w₀.most := by
      unfold Running.most
      omega
    exact .ready (fun a ha => by cases ha) hmost (.start _ _)
  | others _ htoll ih => rwa [htoll]
  | step _ ih => exact ih.step he

/-- Every step takes the loop nearer to its end, and others do not take it back. -/
theorem Amid.rank_le (he : e.reservation = none) (h : Amid c (Phase.first e w₀, w₀) n tries p w) :
    p.isDone = true ∨ p.rank w + n ≤ 3 * w₀.most := by
  induction h with
  | start =>
    right
    show 3 * (w₀.ledger.settings.retry.maxAttempts - 1) + 3 + 0 ≤ 3 * w₀.most
    unfold Running.most
    omega
  | others h _ ih => cases h.underway he with
    | ready _ _ _ | flying _ _ _ _ | tried _ _ _ _ => exact ih
    | done _ _ _ _ _ => exact .inl rfl
  | @step n tries p w h ih =>
    cases hp : p.isDone with
    | true =>
      cases p with
      | done r => exact .inl rfl
      | _ => cases hp
    | false =>
      have hlt := Phase.rank_advance (c := c) hp w
      rw [hp] at ih
      right
      have := ih.resolve_left Bool.false_ne_true
      omega

/-! ## The law of retries -/

/-- What is made of an errand by so many attempts at it, which is answered `r`. -/
structure Retried (w₀ : Running σ) (e : Errand) (tries : List Attempt) (r : Except Failure Receipt)
    (w : Running σ) : Prop where
  /-- All but the last attempt failed in a way that may pass, and the answer is that of the last. -/
  answer : ∃ front last, tries = front ++ [last] ∧ (∀ a ∈ front, a.Passing) ∧ last.answer = r
  /-- As many attempts are made as are allowed, if none of them succeeds or fails for good. -/
  most : tries.length ≤ w₀.most ∧ (∀ f, r = .error f → f.Passing → tries.length = w₀.most)
  /-- All attempts are made under one identifier, and at most one row is committed. -/
  recordId : ∀ a ∈ tries, a.Of e
  committed : tries.filterMap Attempt.committed? = (tries.getLast?.bind Attempt.committed?).toList
  /-- For each attempt but the last a retry is counted, -/
  retries : ∀ t, w.ledger.metrics.retries.count t =
    w₀.ledger.metrics.retries.count t + if t = e.body.table then tries.length - 1 else 0
  /-- and for each that did not get hold of its table, the last among them, that it did not. -/
  contention : ∀ t, w.ledger.metrics.contention.count t = w₀.ledger.metrics.contention.count t +
    if t = e.body.table then tries.countP fun a => isContended a.answer else 0
  /-- An alert is raised exactly if the last attempt failed in a way that may pass. -/
  raised : w.site.raised = w₀.site.raised ++ exhausted e.body.table w₀.most r
  delivered : w.site.alerts = w₀.site.alerts ++
    if w₀.ledger.sink = .channel then exhausted e.body.table w₀.most r else []
  /-- Behind attempt number `i` it is waited as long as the settings say. -/
  delays : w.site.journal.filterMap Notice.delay? = w₀.site.journal.filterMap Notice.delay? ++
    (List.range (tries.length - 1)).map fun i => (i + 1, w₀.ledger.settings.retry.backoff (i + 1))

omit [Store σ] in
/-- What is told at the end of the loop is what is due. -/
theorem Underway.retried {r : Except Failure Receipt} (h : Underway e w₀.most w₀.toll tries (.done r) w.toll) :
    Retried w₀ e tries r w := by
  generalize hy : w.toll = y at h
  cases h with
  | @done front last _ hfront hlast hmost hstop hsettled =>
    subst hy
    have hexhausted : exhausted e.body.table (front.length + 1) last.answer =
        exhausted e.body.table w₀.most last.answer := by
      cases ha : last.answer with
      | ok receipt => rfl
      | error f =>
        by_cases hf : f.Passing
        · rw [hstop ⟨f, ha, hf⟩]
        · simp [exhausted, hf]
    have hcommitted : front.filterMap Attempt.committed? = [] :=
      List.filterMap_eq_nil_iff.2 fun a ha => (hfront a ha).2.committed?
    constructor
    · exact ⟨front, last, rfl, fun a ha => (hfront a ha).2, rfl⟩
    · refine ⟨by simpa using hmost, fun f hf hpassing => ?_⟩
      simpa using hstop ⟨f, hf, hpassing⟩
    · intro a ha
      rcases List.mem_append.1 ha with ha | ha
      · exact (hfront a ha).1
      · cases List.mem_singleton.1 ha
        exact hlast
    · rw [List.filterMap_append, hcommitted, List.getLast?_append]
      cases hc : last.committed? <;> simp [hc]
    · simp only [List.length_append, List.length_singleton, Nat.add_sub_cancel]
      exact hsettled.retries
    · exact hsettled.contention
    · rw [← hexhausted]
      exact hsettled.raised
    · rw [← hexhausted]
      exact hsettled.delivered
    · simp only [List.length_append, List.length_singleton, Nat.add_sub_cancel]
      exact hsettled.delays

/-! ### Without interruption -/

/-- Makes all attempts at an errand, and counts what became of it. -/
def Running.carryOut (w : Running σ) (e : Errand) : Except Failure Receipt × Running σ :=
  let (r, w) := w.attempt e
  let (r, w) := w.conclude e r
  (r, w.observe e.body.table r)

/-- An append carries out the errand that was prepared for it. -/
theorem Running.append_eq_carryOut {caller : Caller} {draws : Draws} {request : Request}
    (h : Work.prepare caller draws request w = (.ok e, w₀)) : w.append caller draws request = w₀.carryOut e := by
  unfold append launch carryOut attempt Engine.append
  rw [h]
  dsimp only
  cases w₀.ledger.engine.stamp w₀.site.now e.recordId e.body with
  | error f => rfl
  | ok q => rfl

theorem Phase.reaches_carryOut (c : Submission) (e : Errand) (w : Running σ) :
    Reaches c (first e w, w) (.done (w.carryOut e).1, (w.carryOut e).2) :=
  (reaches_attempt c e _ 1 w).trans (reaches_conclude c e (w.attempt e).1 (w.attempt e).2)

/-- Steps that follow one another are steps with nothing in between. -/
theorem Phase.Reaches.amid {x y : Phase × Running σ} (h : Reaches c x y) : ∃ n tries, Amid c x n tries y.1 y.2 := by
  obtain ⟨n, rfl⟩ := h
  induction n with
  | zero => exact ⟨0, [], .start⟩
  | succ n ih =>
    obtain ⟨m, tries, h⟩ := ih
    rw [Function.iterate_succ_apply']
    exact ⟨m + 1, _, h.step⟩

/-! ### The law -/

/-- How an errand that has nothing reserved is attempted, from this state on. -/
structure RetryLaw (c : Submission) (w₀ : Running σ) (e : Errand) : Prop where
  /-- Whatever others do in between, once the loop has ended it has done what is due, -/
  done : ∀ {n tries r w}, Amid c (Phase.first e w₀, w₀) n tries (.done r) w → Retried w₀ e tries r w
  /-- and it ends after so many steps of its own. -/
  ends : ∀ {n tries p w}, Amid c (Phase.first e w₀, w₀) n tries p w → 3 * w₀.most ≤ n → p.isDone = true
  /-- If nobody interferes, that is what an append does once its errand is prepared. -/
  alone : ∃ tries, Retried w₀ e tries (w₀.carryOut e).1 (w₀.carryOut e).2
  append : ∀ {w caller draws request}, Work.prepare caller draws request w = (.ok e, w₀) →
    w.append caller draws request = w₀.carryOut e
  /-- The delays are those of exact arithmetic, and never get shorter. -/
  backoff : w₀.ledger.settings.retry.maxBackoffMillis ≤ RetrySettings.largest → ∀ i,
    w₀.ledger.settings.retry.backoff i = .ofMillis (min (w₀.ledger.settings.retry.backoffMillis * 2 ^ min (i - 1) 16)
      w₀.ledger.settings.retry.maxBackoffMillis)
  backoff_mono : ∀ {i j}, i ≤ j →
    (w₀.ledger.settings.retry.backoff i).nanoseconds ≤ (w₀.ledger.settings.retry.backoff j).nanoseconds

/-- Whatever the store and whatever others do, an errand is attempted until an attempt succeeds or fails for good,
or as many have failed as are allowed; and all of it is accounted for. -/
theorem retries_lawful (c : Submission) (w₀ : Running σ) (recordId : Uuid) (body : Body) :
    RetryLaw c w₀ ⟨recordId, body, none⟩ where
  done h := (h.underway rfl).retried
  ends := by
    intro n tries p w h hn
    rcases h.rank_le rfl with hdone | hrank
    · exact hdone
    · cases p with
      | done r => rfl
      | asked | vetted _ | ready _ _ _ | flying _ _ _ _ | tried _ _ _ _ =>
        simp only [Phase.rank] at hrank
        omega
  alone := by
    obtain ⟨n, tries, h⟩ := (Phase.reaches_carryOut c ⟨recordId, body, none⟩ w₀).amid
    exact ⟨tries, (h.underway rfl).retried⟩
  append := Running.append_eq_carryOut
  backoff := w₀.ledger.settings.retry.backoff_eq
  backoff_mono := w₀.ledger.settings.retry.backoff_mono

end Loop

/-- An event that is to be recorded. -/
def cancellation : Body := .event ⟨Uuid.made 1 2, .cancel, none, none, none, none, none, none⟩

/-- A ledger over a store that is full at the first append, and busy at the second. -/
def troubled : Running Flaky where
  ledger := .fresh {} .channel
  site :=
    { store := ⟨.empty, [some (.storage "disk full"), some (.contended .orderEvents ⟨7000000⟩)]⟩
      now := 0
      journal := []
      alerts := [] }

/-- The third attempt stores the event, and the first two are accounted for. -/
theorem retries_lawful_troubled :
    ∃ tries r w, Retried troubled ⟨Uuid.made 1 1, cancellation, none⟩ tries r w ∧ tries.length = 3 ∧
      w.ledger.metrics.contention.count .orderEvents = 1 ∧ w.site.raised = [] ∧
      (w.site.store.memory.rows.get .orderEvents).length = 1 := by
  obtain ⟨tries, h⟩ := (retries_lawful Session.alert troubled (Uuid.made 1 1) cancellation).alone
  refine ⟨tries, _, _, h, ?_, by decide +kernel, by decide +kernel, by decide +kernel⟩
  have hretries := h.retries .orderEvents
  rw [show (troubled.carryOut ⟨Uuid.made 1 1, cancellation, none⟩).2.ledger.metrics.retries.count .orderEvents = 2 by
    decide +kernel] at hretries
  have htwo : 2 = 0 + (tries.length - 1) := hretries
  omega

end TradeLedger

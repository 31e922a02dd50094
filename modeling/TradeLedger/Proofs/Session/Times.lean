/-
When rows are created. A row is stamped with what the clock shows, or with the time of the row in
front of it if that is later. So what is stored with a row is the latest of what the clock showed when
the rows up to it were stamped: however the clock is set, whatever else is attempted in between, and
however often the ledger is opened again and finds the end of a chain in its last row.

What the clock showed is no part of a ledger, so it is noted beside the session: for each call when its
row is stamped, and for each table when the row is stored.
-/
import TradeLedger.Proofs.Session.Accounts
import TradeLedger.Proofs.Session.Reads
import TradeLedger.Proofs.Session.WellFormed

namespace TradeLedger

/-! ## Latest instants -/

namespace Instant

/-- The latest of some instants, or the earliest that there is. -/
def latest (ts : List Instant) : Instant := ts.foldl (fun m t => max t m) earliest

/-- One of the instants, and none of them is later. -/
def IsLatest (ts : List Instant) (m : Instant) : Prop := m ∈ ts ∧ ∀ t ∈ ts, t ≤ m

theorem max_cases (a b : Instant) : (max a b = a ∧ b ≤ a) ∨ (max a b = b ∧ a ≤ b) := by
  show ((if a ≤ b then b else a) = a ∧ _) ∨ ((if a ≤ b then b else a) = b ∧ _)
  by_cases h : a ≤ b
  · exact .inr ⟨if_pos h, h⟩
  · refine .inl ⟨if_neg h, ?_⟩
    rw [Int64.le_iff_toInt_le] at h ⊢
    omega

theorem earliest_le (t : Instant) : earliest ≤ t := by
  rw [Int64.le_iff_toInt_le]
  exact t.minValue_le_toInt

@[simp] theorem latest_append (ts : List Instant) (t : Instant) : latest (ts ++ [t]) = max t (latest ts) :=
  List.foldl_append

theorem isLatest_latest {ts : List Instant} (h : ts ≠ []) : IsLatest ts (latest ts) := by
  induction ts using List.reverseRecOn with
  | nil => exact absurd rfl h
  | append_singleton ts t ih =>
    have hle : ∀ u ∈ ts, u ≤ latest ts := by
      intro u hu
      exact (ih (List.ne_nil_of_mem hu)).2 u hu
    rw [latest_append]
    rcases max_cases t (latest ts) with ⟨hmax, hge⟩ | ⟨hmax, hge⟩ <;> rw [hmax]
    · refine ⟨by simp, fun u hu => ?_⟩
      rcases List.mem_append.1 hu with hu | hu
      · exact Int64.le_trans (hle u hu) hge
      · rw [List.mem_singleton.1 hu]
        exact Int64.le_refl t
    · refine ⟨?_, fun u hu => ?_⟩
      · cases hts : decide (ts = []) with
        | true =>
          -- nothing is earlier than the earliest, so it is `t` itself
          obtain rfl := of_decide_eq_true hts
          have heq : t = earliest := Int64.le_antisymm hge (earliest_le t)
          rw [heq]
          exact List.mem_singleton.2 rfl
        | false => exact List.mem_append_left _ (ih (of_decide_eq_false hts)).1
      · rcases List.mem_append.1 hu with hu | hu
        · exact hle u hu
        · rwa [List.mem_singleton.1 hu]

theorem IsLatest.le {ts us : List Instant} {m m' : Instant} (h : IsLatest ts m) (h' : IsLatest us m')
    (hsub : ts ⊆ us) : m ≤ m' :=
  h'.2 m (hsub h.1)

theorem IsLatest.unique {ts : List Instant} {m m' : Instant} (h : IsLatest ts m) (h' : IsLatest ts m') : m = m' :=
  Int64.le_antisymm (h.le h' (List.Subset.refl _)) (h'.le h (List.Subset.refl _))

theorem calendar_of_inCalendar {t : Instant} (h : t.inCalendar = true) : t.calendar = t := if_pos h

end Instant

/-! ## Looking at the clock -/

/-- What a call was given for its row, or is about to be. -/
def Phase.receipt? : Phase → Option Receipt
  | .tried _ r _ _ | .done r => r.toOption
  | _ => none

/-- What the clock showed. -/
@[ext] structure Glances where
  /-- When a row was last stamped for each call. -/
  stamped : ℕ → Instant
  /-- When each row of a table was stamped, in the order of the rows. -/
  readings : PerTable (List Instant)

namespace Glances

/-- A row is stamped for a call. -/
def stamp (g : Glances) (i : ℕ) (now : Instant) : Glances := { g with stamped := Function.update g.stamped i now }

/-- The row of a call is stored. -/
def store (g : Glances) (i : ℕ) (t : Table) : Glances :=
  { g with readings := g.readings.modify t (· ++ [g.stamped i]) }

/-- A call goes from one phase to another while the clock shows `now`. -/
def step (g : Glances) (i : ℕ) (now : Instant) : Phase → Phase → Glances
  | .ready _ _ _, .flying _ _ _ _ => g.stamp i now
  | .flying e _ _ _, .tried _ (.ok _) _ _ => g.store i e.body.table
  | _, _ => g

theorem stamped_stamp (g : Glances) (i j : ℕ) (now : Instant) :
    (g.stamp i now).stamped j = if j = i then now else g.stamped j :=
  Function.update_apply ..

theorem readings_store (g : Glances) (i : ℕ) (t u : Table) :
    (g.store i t).readings.get u = if u = t then g.readings.get u ++ [g.stamped i] else g.readings.get u := by
  rw [store, PerTable.modify]
  split
  · subst_vars; rw [PerTable.get_set_self]
  · rw [PerTable.get_set_ne _ _ ‹_›]

end Glances

/-- A session, and what its clock showed. -/
structure Watched (σ : Type) where
  session : Session σ
  glances : Glances

namespace Watched

variable {σ : Type} [Store σ]

/-- No call has been made yet. -/
def start (w : Running σ) : Watched σ := ⟨⟨w, []⟩, ⟨fun _ => w.site.now, .ofFn fun _ => []⟩⟩

/-- A call takes its next step. -/
def advance (i : ℕ) (x : Watched σ) : Watched σ where
  session := x.session.advance i
  glances :=
    match x.session.calls[i]? with
    | some c =>
      x.glances.step i x.session.running.site.now c.phase (c.phase.advance c.submission x.session.running).1
    | none => x.glances

/-- One event. An append is watched step by step. -/
def step (x : Watched σ) : Event → Watched σ
  | .advance i => x.advance i
  | .append c =>
    (advance x.session.calls.length)^[Phase.rank x.session.running .asked] { x with session := x.session.call c }
  | e => { x with session := x.session.step e }

/-- Event after event. -/
def run (x : Watched σ) (events : List Event) : Watched σ := events.foldl step x

theorem session_iterate_advance (i n : ℕ) (x : Watched σ) :
    ((advance i)^[n] x).session = (Session.advance i)^[n] x.session := by
  induction n generalizing x with
  | zero => rfl
  | succ n ih => exact ih (x.advance i)

/-- The watched session is the session. -/
theorem session_step (x : Watched σ) (e : Event) : (x.step e).session = x.session.step e := by
  cases e with
  | append c =>
    have hlast := Session.iterate_advance_last x.session.calls c (Phase.rank x.session.running .asked)
      (.asked, x.session.running)
    have hsteps := Phase.steps_append c x.session.running
    rw [Phase.steps] at hsteps
    rw [hsteps] at hlast
    exact (session_iterate_advance _ _ _).trans hlast
  | _ => rfl

theorem session_run (x : Watched σ) (events : List Event) : (x.run events).session = x.session.run events := by
  induction events generalizing x with
  | nil => rfl
  | cons e events ih => exact (ih (x.step e)).trans (by rw [session_step]; rfl)

end Watched

/-! ## What is kept -/

/-- The row was created at this instant. -/
def Row.CreatedAt (r : Row) (m : Instant) : Prop := ∃ e, Envelope.decode r.content = .ok e ∧ e.createdAt = m

theorem Row.CreatedAt.unique {r : Row} {m m' : Instant} (h : r.CreatedAt m) (h' : r.CreatedAt m') : m = m' := by
  obtain ⟨e, he, rfl⟩ := h
  obtain ⟨e', he', rfl⟩ := h'
  rw [he] at he'
  cases he'
  rfl

/-- A record shows when its row was created. -/
theorem Row.CreatedAt.record {r : Row} {c : Record} {m : Instant} (h : r.CreatedAt m) (hc : r.record = .ok c) :
    c.createdAt = m.calendar := by
  obtain ⟨e, he, rfl⟩ := h
  rw [Row.record, he] at hc
  cases hc
  rfl

/-- Rows and what the clock showed for them: each was created at the latest of that up to it. -/
structure Timed (rows : List Row) (readings : List Instant) : Prop where
  length : readings.length = rows.length
  createdAt : ∀ n (r : Row), rows[n]? = some r → r.CreatedAt (Instant.latest (readings.take (n + 1)))

theorem Timed.snoc {rows : List Row} {readings : List Instant} {r : Row} {t : Instant} (h : Timed rows readings)
    (hr : r.CreatedAt (Instant.latest (readings ++ [t]))) : Timed (rows ++ [r]) (readings ++ [t]) where
  length := by simp [h.length]
  createdAt n r' hr' := by
    rcases Nat.lt_or_ge n rows.length with hn | hn
    · rw [List.getElem?_append_left hn] at hr'
      rw [List.take_append_of_le_length (by rw [h.length]; omega)]
      exact h.createdAt n r' hr'
    · rw [List.getElem?_append_right hn, List.getElem?_singleton] at hr'
      split at hr'
      · cases hr'
        rwa [List.take_of_length_le (by rw [List.length_append, h.length, List.length_singleton]; omega)]
      · cases hr'

/-- The latest is one of the readings. -/
theorem Timed.isLatest {rows : List Row} {readings : List Instant} {n : ℕ} {r : Row} (h : Timed rows readings)
    (hr : rows[n]? = some r) : ∃ m, Instant.IsLatest (readings.take (n + 1)) m ∧ r.CreatedAt m := by
  refine ⟨_, Instant.isLatest_latest fun hnil => ?_, h.createdAt n r hr⟩
  have hn := (List.getElem?_eq_some_iff.1 hr).1
  replace hnil := congrArg List.length hnil
  rw [List.length_take, h.length, List.length_nil] at hnil
  omega

/-- The receipt is that of a row in this place of its table, and shows when that was created. -/
def Receipt.Of (receipt : Receipt) (m : Memory) (n : ℕ) : Prop :=
  ∃ r, (m.rows.get receipt.table)[n]? = some r ∧ receipt.IsOf r ∧
    ∃ t, r.CreatedAt t ∧ receipt.createdAt = t.calendar

theorem Receipt.Of.mono {receipt : Receipt} {m m' : Memory} {n : ℕ} (h : receipt.Of m n)
    (hrows : ∀ t, m.rows.get t <+: m'.rows.get t) : receipt.Of m' n := by
  obtain ⟨r, hr, hof⟩ := h
  obtain ⟨more, hmore⟩ := hrows receipt.table
  refine ⟨r, ?_, hof⟩
  rw [← hmore, List.getElem?_append_left (List.getElem?_eq_some_iff.1 hr).1, hr]

/-- The receipt of a row that is stored. -/
theorem Receipt.of_push {s : Stamp} {m : Memory} (h : s.row.CreatedAt s.createdAt) :
    s.receipt.Of (m.push s.row) (m.rows.get s.row.table).length := by
  refine ⟨s.row, ?_, ⟨rfl, rfl, rfl, rfl, rfl⟩, s.createdAt, h, rfl⟩
  rw [show s.receipt.table = s.row.table from rfl, Memory.rows_push, if_pos rfl, List.getElem?_concat_length]

/-- What the clock showed accounts for when the rows of a session were created. All of it is an instant of `P`. -/
structure Glances.Explain (P : Instant → Prop) (g : Glances) (x : Facts) (calls : List Call) : Prop where
  chained : Chained x calls
  /-- A row on its way to the store is stamped for the end of its table. -/
  flight : ∀ i e s, Flies calls i e s →
    s = Engine.follow (x.engine.tails.get e.body.table) (g.stamped i) e.recordId e.body
  ends : ∀ t, (x.engine.tails.get t).createdAt = Instant.latest (g.readings.get t)
  rows : ∀ t, Timed (x.memory.rows.get t) (g.readings.get t)
  receipts : ∀ c ∈ calls, ∀ receipt, c.phase.receipt? = some receipt → ∃ n, receipt.Of x.memory n
  now : P x.now
  stamped : ∀ i, P (g.stamped i)
  readings : ∀ t, ∀ m ∈ g.readings.get t, P m

namespace Glances.Explain

variable {P : Instant → Prop} {g : Glances} {x x' : Facts} {calls calls' : List Call} {c : Call} {i : ℕ}

/-- Nothing is stamped or stored, and nothing is in flight that was not before. -/
theorem keep (h : g.Explain P x calls) (hchained : Chained x' calls')
    (hflies : ∀ i e s, Flies calls' i e s → Flies calls i e s)
    (hreceipts : ∀ c ∈ calls', ∀ receipt, c.phase.receipt? = some receipt →
      ∃ d ∈ calls, d.phase.receipt? = some receipt)
    (hmemory : x'.memory = x.memory) (htails : x'.engine.tails = x.engine.tails) (hnow : P x'.now) :
    g.Explain P x' calls' where
  chained := hchained
  flight i e s hi := htails ▸ h.flight i e s (hflies i e s hi)
  ends t := htails ▸ h.ends t
  rows t := hmemory ▸ h.rows t
  receipts c hc receipt hreceipt := by
    obtain ⟨d, hd, hdreceipt⟩ := hreceipts c hc receipt hreceipt
    rw [hmemory]
    exact h.receipts d hd receipt hdreceipt
  now := hnow
  stamped := h.stamped
  readings := h.readings

/-- A step of a call in which nothing is stamped or stored. -/
theorem idle {p : Phase} (h : g.Explain P x calls) (hc : calls[i]? = some c)
    (hchained : Chained x' (calls.set i { c with phase := p }))
    (hfly : ∀ e s left attempts, p ≠ .flying e s left attempts)
    (hreceipt : ∀ receipt, p.receipt? = some receipt → c.phase.receipt? = some receipt)
    (hmemory : x'.memory = x.memory) (htails : x'.engine.tails = x.engine.tails) (hnow : x'.now = x.now) :
    g.Explain P x' (calls.set i { c with phase := p }) := by
  refine h.keep hchained (fun j e s hj => ?_) (fun d hd receipt hdreceipt => ?_) hmemory htails (hnow ▸ h.now)
  · rcases hj.of_set with ⟨-, left, attempts, hp⟩ | ⟨-, hj⟩
    · exact absurd hp (hfly e s left attempts)
    · exact hj
  · rcases List.mem_or_eq_of_mem_set hd with hd | rfl
    · exact ⟨d, hd, hdreceipt⟩
    · exact ⟨c, List.mem_of_getElem? hc, hreceipt receipt hdreceipt⟩

/-- A row is stamped with what the clock shows. -/
theorem stamp {e : Errand} {s : Stamp} {left attempts : ℕ} (h : g.Explain P x calls)
    (hchained : Chained x' (calls.set i { c with phase := .flying e s left attempts }))
    (hs : s = Engine.follow (x.engine.tails.get e.body.table) x.now e.recordId e.body)
    (hmemory : x'.memory = x.memory) (htails : x'.engine.tails = x.engine.tails) (hnow : x'.now = x.now) :
    (g.stamp i x.now).Explain P x'
      (calls.set i { c with phase := .flying e s left attempts }) where
  chained := hchained
  flight j e' s' hj := by
    rw [htails]
    rcases hj.of_set with ⟨rfl, left', attempts', hp⟩ | ⟨hne, hj⟩
    · cases hp
      rw [Glances.stamped_stamp, if_pos rfl, hs]
    · rw [Glances.stamped_stamp, if_neg hne]
      exact h.flight j e' s' hj
  ends t := htails ▸ h.ends t
  rows t := hmemory ▸ h.rows t
  receipts d hd receipt hreceipt := by
    rcases List.mem_or_eq_of_mem_set hd with hd | rfl
    · rw [hmemory]
      exact h.receipts d hd receipt hreceipt
    · cases hreceipt
  now := hnow ▸ h.now
  stamped j := by
    rw [Glances.stamped_stamp]
    split
    · exact h.now
    · exact h.stamped j
  readings := h.readings

/-- A row on its way to the store was created when the clock showed what it did, or together with the row in
front of it. -/
theorem created {e : Errand} {s : Stamp} (h : g.Explain P x calls) (hflies : Flies calls i e s) :
    s.row.table = e.body.table ∧ s.createdAt = Instant.latest (g.readings.get e.body.table ++ [g.stamped i]) ∧
      s.row.CreatedAt s.createdAt := by
  have hs := h.flight i e s hflies
  obtain ⟨c, left, attempts, hc, hphase⟩ := hflies
  refine ⟨by rw [hs, Engine.table_follow], ?_, ?_⟩
  · rw [Instant.latest_append, ← h.ends, hs]
    rfl
  · rw [hs]
    exact ⟨_, Envelope.decode_encode (h.chained.becomes hc hphase).storable, rfl⟩

/-- The row is stored. -/
theorem store {e : Errand} {s : Stamp} {left attempts : ℕ} (h : g.Explain P x calls) (hc : calls[i]? = some c)
    (hphase : c.phase = .flying e s left attempts)
    (hchained : Chained x' (calls.set i { c with phase := .tried e (.ok s.receipt) left attempts }))
    (hmemory : x'.memory = x.memory.push s.row) (htails : x'.engine.tails = x.engine.tails.set s.row.table s.tail)
    (hnow : x'.now = x.now) :
    (g.store i e.body.table).Explain P x'
      (calls.set i { c with phase := .tried e (.ok s.receipt) left attempts }) := by
  have hflies : Flies calls i e s := ⟨c, left, attempts, hc, hphase⟩
  obtain ⟨htable, hcreated, hrow⟩ := h.created hflies
  -- only the table of the row has another end, one more row and one more reading
  refine ⟨hchained, ?flight, ?ends, ?rows, ?receipts, hnow ▸ h.now, h.stamped, ?readings⟩
  case flight =>
    intro j e' s' hj
    rcases hj.of_set with ⟨-, left', attempts', hp⟩ | ⟨hne, hj⟩
    · cases hp
    · have hother : e'.body.table ≠ s.row.table :=
        fun ht => hne (h.chained.apart j i e' e s' s hj hflies (ht.trans htable))
      rw [htails, PerTable.get_set_ne _ _ hother]
      exact h.flight j e' s' hj
  case ends =>
    intro t
    rw [htails, htable, Glances.readings_store]
    split
    · subst_vars
      rw [PerTable.get_set_self, ← hcreated]
      rfl
    · rw [PerTable.get_set_ne _ _ ‹_›]
      exact h.ends t
  case rows =>
    intro t
    rw [Glances.readings_store, hmemory, Memory.rows_push, htable]
    split
    · subst_vars
      exact (h.rows _).snoc (hcreated ▸ hrow)
    · exact h.rows t
  case receipts =>
    intro d hd receipt hreceipt
    rw [hmemory]
    rcases List.mem_or_eq_of_mem_set hd with hd | rfl
    · obtain ⟨n, hn⟩ := h.receipts d hd receipt hreceipt
      exact ⟨n, hn.mono (Memory.rows_prefix_push _ _)⟩
    · cases hreceipt
      exact ⟨_, Receipt.of_push hrow⟩
  case readings =>
    intro t m hm
    rw [Glances.readings_store] at hm
    split at hm
    · rcases List.mem_append.1 hm with hm | hm
      · exact h.readings t m hm
      · rw [List.mem_singleton.1 hm]
        exact h.stamped i
    · exact h.readings t m hm

/-- Every step of a call keeps the explanation. -/
theorem step {p : Phase} (h : g.Explain P x calls) (hc : calls[i]? = some c)
    (hstep : Phase.Step c.submission c.phase x p x') :
    (g.step i x.now c.phase p).Explain P x' (calls.set i { c with phase := p }) := by
  have hchained := h.chained.step hc hstep
  generalize hq : c.phase = q at hstep
  cases hstep with
  | stamped hfree => exact h.stamp hchained rfl rfl rfl rfl
  | stored hposition => exact h.store hc hq hchained rfl rfl rfl
  | vetted _ | refused _ | engaged _ _ _ | reserved _ | unreserved _ | unengaged _ _ | contended _ | lost _
  | again _ _ | concluded _ _ | registered _ _ | committed _ | released _ | idle =>
    exact h.idle hc hchained (by simp) (by rw [hq]; exact fun _ h => h) rfl rfl rfl

end Glances.Explain

namespace Watched

variable {P : Instant → Prop} {x : Watched Flaky}

/-- What the clock showed accounts for when the rows were created. -/
def Explained (P : Instant → Prop) (x : Watched Flaky) : Prop :=
  x.glances.Explain P x.session.running.facts x.session.calls

theorem Explained.advance (h : x.Explained P) (i : ℕ) : (x.advance i).Explained P := by
  unfold Explained Watched.advance Session.advance
  cases hc : x.session.calls[i]? with
  | none => exact h
  | some c => exact h.step hc (Phase.step_advance c.submission x.session.running c.phase)

theorem Explained.iterate_advance (h : x.Explained P) (i n : ℕ) : ((Watched.advance i)^[n] x).Explained P := by
  induction n generalizing x with
  | zero => exact h
  | succ n ih => exact ih (h.advance i)

theorem Explained.call (h : x.Explained P) (c : Submission) :
    ({ x with session := x.session.call c } : Watched Flaky).Explained P := by
  refine h.keep (h.chained.call c) (fun i e s hi => hi.of_append (by simp)) (fun d hd receipt hreceipt => ?_)
    rfl rfl h.now
  rcases List.mem_append.1 hd with hd | hd
  · exact ⟨d, hd, hreceipt⟩
  · cases List.mem_singleton.1 hd
    cases hreceipt

/-- An event in which no call takes a step. -/
theorem Explained.still (h : x.Explained P) {e : Event} (hcalls : (x.session.step e).calls = x.session.calls)
    (hmemory : (x.session.step e).running.facts.memory = x.session.running.facts.memory)
    (htails : (x.session.step e).running.facts.engine.tails = x.session.running.facts.engine.tails)
    (hnow : P (x.session.step e).running.facts.now) :
    ({ x with session := x.session.step e } : Watched Flaky).Explained P := by
  have hchained := (Session.reaches_step h.chained.linked e).keeps (fun hmove h => h.move hmove) h.chained
  refine h.keep hchained (fun i e s hi => ?_) (fun d hd receipt hreceipt => ?_) hmemory htails hnow
  · rwa [hcalls] at hi
  · rw [hcalls] at hd
    exact ⟨d, hd, hreceipt⟩

theorem Explained.step (h : x.Explained P) {e : Event} (hclock : ∀ now, e = .clock now → P now) :
    (x.step e).Explained P := by
  cases e with
  | call c => exact h.call c
  | advance i => exact h.advance i
  | append c => exact (h.call c).iterate_advance _ _
  | query q =>
    have hfacts := q.facts_ask h.chained.linked
    exact h.still rfl (congrArg Facts.memory hfacts) (congrArg (·.engine.tails) hfacts)
      ((congrArg Facts.now hfacts).symm ▸ h.now)
  | clock now => exact h.still rfl rfl rfl (hclock now rfl)
  | hold t => exact h.still rfl rfl rfl h.now
  | free t =>
    refine h.still ?_ ?_ ?_ ?_ <;> rw [Session.step] <;> split <;> first | rfl | exact h.now
  | reopen settings sink =>
    obtain ⟨w, hopened, hw⟩ := Ledger.opened_of_linked h.chained.linked settings sink
    have hreopen : x.session.reopen settings sink = { x.session with running := w } := by
      unfold Session.reopen
      rw [hopened]
    refine h.still ?_ ?_ ?_ ?_ <;> rw [Session.step] <;> split <;> first | rfl | exact h.now | rw [hreopen]
    · show w.facts.memory = _
      rw [hw]
      rfl
    · show w.facts.engine.tails = _
      rw [hw]
    · show P w.facts.now
      rw [hw]
      exact h.now

theorem Explained.run (h : x.Explained P) (events : List Event) (hclock : ∀ now, .clock now ∈ events → P now) :
    (x.run events).Explained P := by
  induction events generalizing x with
  | nil => exact h
  | cons e events ih =>
    refine ih (h.step fun now he => hclock now ?_) fun now hnow => hclock now (List.mem_cons_of_mem _ hnow)
    rw [he]
    exact List.mem_cons_self

/-- Nothing is stored yet, and no call was made. -/
theorem explained_start {w : Running Flaky} (hrecorded : (⟨w, []⟩ : Session Flaky).Recorded)
    (hempty : ∀ t, (⟨w, []⟩ : Session Flaky).rows t = []) (hnow : P w.site.now) : (start w).Explained P := by
  have hrows (t : Table) : w.facts.memory.rows.get t = [] := hempty t
  have hreadings (t : Table) : (start w).glances.readings.get t = [] := PerTable.get_ofFn ..
  refine ⟨hrecorded.chained, ?_, fun t => ?_, fun t => ?_, List.forall_mem_nil _, hnow, fun _ => hnow,
    fun t m hm => ?_⟩
  · rintro i e s ⟨c, left, attempts, hc, -⟩
    cases hc
  · rcases (hrecorded.chained.linked t).tail_eq with ⟨-, htail⟩ | ⟨r, e, hlast, -⟩
    · show (w.facts.engine.tails.get t).createdAt = _
      rw [show w.facts.engine.tails.get t = _ from htail, hreadings]
      rfl
    · rw [show _ = w.facts.memory.rows.get t from rfl, hrows] at hlast
      cases hlast
  · rw [hreadings, show (start w).session.running.facts.memory.rows.get t = [] from hrows t]
    exact ⟨rfl, nofun⟩
  · rw [hreadings] at hm
    cases hm

/-! ## Times -/

/-- When rows were created goes back to what the clock showed. -/
structure Dated (x : Watched Flaky) : Prop where
  /-- The clock was read once for each row. -/
  length : ∀ t, (x.glances.readings.get t).length = (x.session.rows t).length
  /-- A row is created at the latest of the readings for the rows up to it, -/
  stored : ∀ t n (r : Row), (x.session.rows t)[n]? = some r →
    ∃ m, Instant.IsLatest ((x.glances.readings.get t).take (n + 1)) m ∧ r.CreatedAt m
  /-- and so never before a row in front of it. -/
  ordered : ∀ t (i j : ℕ) (r r' : Row) (m m' : Instant), i ≤ j →
    (x.session.rows t)[i]? = some r → (x.session.rows t)[j]? = some r' → r.CreatedAt m → r'.CreatedAt m' → m ≤ m'
  /-- Records and receipts show that instant as a calendar does. -/
  records : ∀ t, (Query.records t).answer x.session.running = .ok (x.session.records t) ∧
    ∀ n c, (x.session.records t)[n]? = some c →
      ∃ m, Instant.IsLatest ((x.glances.readings.get t).take (n + 1)) m ∧ c.createdAt = m.calendar
  receipts : ∀ d ∈ x.session.calls, ∀ receipt, d.phase.receipt? = some receipt →
    ∃ n c, receipt.position.toNat = n + 1 ∧ (x.session.records receipt.table)[n]? = some c ∧
      receipt.createdAt = c.createdAt
  /-- Where a calendar can hold what the clock showed, it is the instant itself, and never decreases. -/
  shown : ∀ t, (∀ m ∈ x.glances.readings.get t, m.inCalendar = true) →
    (∀ n c, (x.session.records t)[n]? = some c →
      Instant.IsLatest ((x.glances.readings.get t).take (n + 1)) c.createdAt) ∧
    ((x.session.records t).map Record.createdAt).Pairwise (· ≤ ·)

/-- More rows, more readings for them. -/
theorem readings_subset (x : Watched Flaky) (t : Table) {i j : ℕ} (h : i ≤ j) :
    (x.glances.readings.get t).take (i + 1) ⊆ (x.glances.readings.get t).take (j + 1) :=
  (List.take_prefix_take_left (by omega)).subset

theorem Explained.ordered (h : x.Explained P) {t : Table} {i j : ℕ} {r r' : Row} {m m' : Instant} (hij : i ≤ j)
    (hr : (x.session.rows t)[i]? = some r) (hr' : (x.session.rows t)[j]? = some r') (hm : r.CreatedAt m)
    (hm' : r'.CreatedAt m') : m ≤ m' := by
  obtain ⟨k, hk, hrk⟩ := (h.rows t).isLatest hr
  obtain ⟨k', hk', hrk'⟩ := (h.rows t).isLatest hr'
  rw [hm.unique hrk, hm'.unique hrk']
  exact hk.le hk' (x.readings_subset t hij)

theorem Explained.recorded (h : x.Explained P) (hreadable : x.session.Readable) {t : Table} {n : ℕ} {c : Record}
    (hc : (x.session.records t)[n]? = some c) :
    ∃ m, Instant.IsLatest ((x.glances.readings.get t).take (n + 1)) m ∧ c.createdAt = m.calendar := by
  have hrow := getElem?_recordsOf (hreadable.legible t) n
  rw [show (recordsOf (x.session.rows t))[n]? = some c from hc] at hrow
  obtain ⟨r, hr, hrc⟩ := Option.map_eq_some_iff.1 hrow
  obtain ⟨m, hm, hcreated⟩ := (h.rows t).isLatest hr
  exact ⟨m, hm, hcreated.record hrc⟩

theorem Explained.received (h : x.Explained P) (hreadable : x.session.Readable) {d : Call} (hd : d ∈ x.session.calls)
    {receipt : Receipt} (hreceipt : d.phase.receipt? = some receipt) :
    ∃ n c, receipt.position.toNat = n + 1 ∧ (x.session.records receipt.table)[n]? = some c ∧
      receipt.createdAt = c.createdAt := by
  obtain ⟨n, r, hr, hof, m, hm, hshow⟩ := h.receipts d hd receipt hreceipt
  have hrecord := getElem?_recordsOf (hreadable.legible receipt.table) n
  rw [show (x.session.rows receipt.table)[n]? = some r from hr] at hrecord
  obtain ⟨c, hc, hrc⟩ := Option.map_eq_some_iff.1 hrecord.symm
  refine ⟨n, c, ?_, hc, hshow.trans (hm.record hrc.symm).symm⟩
  rw [hof.2.1]
  exact ((h.chained.linked receipt.table).getElem?_eq hr).1

theorem Explained.shown (h : x.Explained P) (hreadable : x.session.Readable) {t : Table}
    (hin : ∀ m ∈ x.glances.readings.get t, m.inCalendar = true) {n : ℕ} {c : Record}
    (hc : (x.session.records t)[n]? = some c) :
    Instant.IsLatest ((x.glances.readings.get t).take (n + 1)) c.createdAt := by
  obtain ⟨m, hm, hcm⟩ := h.recorded hreadable hc
  rw [hcm, Instant.calendar_of_inCalendar (hin m (List.mem_of_mem_take hm.1))]
  exact hm

theorem Explained.shown_ordered (h : x.Explained P) (hreadable : x.session.Readable) {t : Table}
    (hin : ∀ m ∈ x.glances.readings.get t, m.inCalendar = true) :
    ((x.session.records t).map Record.createdAt).Pairwise (· ≤ ·) := by
  rw [List.pairwise_map, List.pairwise_iff_getElem]
  intro i j hi hj hij
  have hshown := h.shown hreadable hin (List.getElem?_eq_getElem hi)
  exact hshown.le (h.shown hreadable hin (List.getElem?_eq_getElem hj)) (x.readings_subset t hij.le)

theorem Explained.dated (h : x.Explained P) (hreadable : x.session.Readable) : x.Dated where
  length t := (h.rows t).length
  stored t _ _ hr := (h.rows t).isLatest hr
  ordered _ _ _ _ _ _ _ hij hr hr' hm hm' := h.ordered hij hr hr' hm hm'
  records t := ⟨hreadable.readsExactly.records t, fun _ _ hc => h.recorded hreadable hc⟩
  receipts _ hd _ hreceipt := h.received hreadable hd hreceipt
  shown _ hin := ⟨fun _ _ hc => h.shown hreadable hin hc, h.shown_ordered hreadable hin⟩

/-- A ledger opens over an empty store, and from then on, however the clock is set, whatever calls are made,
in whatever order they take their steps, whichever appends fail and however often the ledger is opened
again: a row is created at the latest instant that the clock showed when the rows of its table up to it
were stamped, and records and receipts show it. -/
theorem created_by_clock (settings : Settings) (sink : Sink) (faults : List (Option Failure)) (now : Instant) :
    ∃ w : Running Flaky,
      Ledger.opened settings sink { store := ⟨.empty, faults⟩, now, journal := [], alerts := [] } =
        (.ok w.ledger, w.site) ∧
      ∀ events, ((start w).run events).session = (⟨w, []⟩ : Session Flaky).run events ∧
        (∀ t, ∀ m ∈ ((start w).run events).glances.readings.get t, m = now ∨ .clock m ∈ events) ∧
        ((start w).run events).Dated := by
  obtain ⟨w, hopened, hrecorded, hempty⟩ := Session.recorded_of_opened settings sink faults now
  obtain ⟨hmemory, hnow⟩ := Session.site_of_opened hopened
  have hindexed : (⟨w, []⟩ : Session Flaky).memory.Indexed := by
    rw [show (⟨w, []⟩ : Session Flaky).memory = .empty from hmemory]
    exact Memory.indexed_empty
  refine ⟨w, hopened, fun events => ?_⟩
  have hsession := session_run (start w) events
  have hstart : (start w).Explained fun m => m = now ∨ .clock m ∈ events :=
    explained_start hrecorded hempty (.inl hnow)
  have hexplained := hstart.run events fun m hm => .inr hm
  refine ⟨hsession, hexplained.readings, hexplained.dated ?_⟩
  rw [hsession]
  exact Session.readable_run hrecorded hempty hindexed events


open Session in
/-- A thought, and the same thought again at the last instant that there is. -/
def afterthought : List Event := [.append alert, .append thought, .clock Int64.maxValue, .append thought]

/-- No calendar holds the last instant. The second row is created then, but its record and its receipt show the
start of 1970, which is before the first. -/
theorem last_instant_shown_first :
    ∃ w : Running Flaky,
      Ledger.opened {} .log { store := ⟨.empty, []⟩, now := 1, journal := [], alerts := [] } =
          (.ok w.ledger, w.site) ∧
        ((start w).run afterthought).glances.readings.get .deliberations = [1, Int64.maxValue] ∧
        (((start w).run afterthought).session.records .deliberations).map Record.createdAt = [1, 0] ∧
        (((start w).run afterthought).session.calls.filterMap fun c => c.phase.receipt?.map Receipt.createdAt) =
          [1, 1, 0] := by
  let before : Site Flaky := { store := ⟨.empty, []⟩, now := 1, journal := [], alerts := [] }
  refine ⟨⟨.fresh {} .log, (Ledger.opened {} .log before).2⟩, rfl, ?readings, ?records, ?receipts⟩
  case readings => decide +kernel
  case records => decide +kernel
  case receipts => decide +kernel

end Watched

end TradeLedger

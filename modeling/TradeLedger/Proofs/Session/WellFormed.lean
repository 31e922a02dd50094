/-
Only well-formed facts are stored. What is stored is what a call asked for, and of what a call asks for
every figure passed the gateway, every text that has to say something does, and every document was
printed in its canonical form.

The invariant ties each row to the submission of a call (`Sourced`), as long as the call whose row is
on its way to the store carries the body that its submission became.
-/
import TradeLedger.Proofs.Json
import TradeLedger.Proofs.Objections
import TradeLedger.Proofs.Session.References

namespace TradeLedger

open Codec

/-! ## Well-formed facts -/

/-- A figure as its measure has it: the fraction digits, and the range. -/
def Measure.Admits : Measure → Decimal → Prop
  | .quantity, d => d.scale = 8 ∧ 0 < d.value ∧ d.value < 10 ^ 12
  | .price, d => d.scale = 10 ∧ 0 < d.value ∧ d.value < 10 ^ 10
  | .confidence, d => d.scale = 4 ∧ 0 ≤ d.value ∧ d.value ≤ 1
  | .currency, d => d.scale = 2 ∧ |d.value| < 10 ^ 18 ∧ ¬ (d.value = 0 ∧ d.negative = true)

structure Signal.WellFormed (s : Signal) : Prop where
  dedupeKey : Text.Says s.dedupeKey
  symbol : Text.Says s.symbol
  quantity : Measure.quantity.Admits s.quantity
  price : ∀ d ∈ s.price, Measure.price.Admits d

structure Deliberation.WellFormed (d : Deliberation) : Prop where
  model : Text.Says d.model
  reasoning : Json.Canonical d.reasoning
  confidence : Measure.confidence.Admits d.confidence

structure Execution.WellFormed (e : Execution) : Prop where
  symbol : Text.Says e.symbol
  externalOrderId : ∀ i ∈ e.externalOrderId, Text.Says i
  quantity : Measure.quantity.Admits e.quantity
  price : ∀ d ∈ e.price, Measure.price.Admits d

structure OrderEvent.WellFormed (e : OrderEvent) : Prop where
  fillQuantity : ∀ d ∈ e.fillQuantity, Measure.quantity.Admits d
  fillPrice : ∀ d ∈ e.fillPrice, Measure.price.Admits d
  equity : ∀ d ∈ e.equity, Measure.currency.Admits d
  closedPositions : ∀ text ∈ e.closedPositions, Json.Canonical text

def Body.WellFormed : Body → Prop
  | .signal s => s.WellFormed
  | .deliberation d => d.WellFormed
  | .execution e => e.WellFormed
  | .event e => e.WellFormed

/-- The row reads as a fact that belongs into the table, and the fact is well formed. -/
def Row.WellFormed (t : Table) (r : Row) : Prop :=
  ∃ e, Envelope.decode r.content = .ok e ∧ e.body.table = t ∧ e.body.WellFormed

/-! ## Requests -/

/-- The documents of a request are documents as they exist. -/
def Request.Proper : Request → Prop
  | .deliberation r => r.reasoning.Proper
  | .event r => ∀ j ∈ r.closedPositions, j.Proper
  | .signal _ | .execution _ => True

/-- What is admitted has the fraction digits and the range of its measure. -/
theorem Measure.admits_of_accept {m : Measure} {f : Figure} {d : Decimal} (h : m.accept f = .ok d) : m.Admits d := by
  have hsigned := signed_accept h
  obtain ⟨text, htext⟩ : ∃ text, m.acceptText text = .ok d := by
    cases f with
    | text s => exact ⟨s, h⟩
    | integer i => exact ⟨_, h⟩
    | float => cases h
  obtain ⟨q, -, hlt, hrange, hscale, hvalue, -⟩ := acceptText_iff.1 htext
  rw [← hvalue] at hlt hrange
  cases m with
  | price => exact ⟨hscale, hrange, (le_abs_self _).trans_lt hlt⟩
  | quantity => exact ⟨hscale, hrange, (le_abs_self _).trans_lt hlt⟩
  | confidence => exact ⟨hscale, hrange.1, hrange.2⟩
  | currency => exact ⟨hscale, hlt, fun h0 => Bool.noConfusion ((Decimal.signed_iff.1 hsigned h0.1).symm.trans h0.2)⟩

/-- What the gateway reads has what its measure has. -/
theorem Measure.Reads.admits {m : Measure} {f : Figure} {d : Decimal} (h : m.Reads f d) : m.Admits d := admits_of_accept h

theorem SignalRequest.Yields.wellFormed {r : SignalRequest} {s : Signal} (h : r.Yields s) (hr : r.Acceptable) :
    s.WellFormed where
  dedupeKey := h.dedupeKey ▸ hr.dedupeKey
  symbol := h.symbol ▸ hr.symbol
  quantity := h.quantity.admits
  price := Measure.forall_of_reads h.price fun _ _ => Measure.Reads.admits

theorem DeliberationRequest.Yields.wellFormed {r : DeliberationRequest} {d : Deliberation} (h : r.Yields d)
    (hr : r.Acceptable) (hproper : r.reasoning.Proper) : d.WellFormed where
  model := h.model ▸ hr.model
  reasoning := h.reasoning ▸ hproper.canonical hr.reasoning
  confidence := h.confidence.admits

theorem ExecutionRequest.Yields.wellFormed {r : ExecutionRequest} {e : Execution} (h : r.Yields e)
    (hr : r.Acceptable) : e.WellFormed where
  symbol := h.symbol ▸ hr.symbol
  externalOrderId := h.externalOrderId ▸ hr.externalOrderId
  quantity := h.quantity.admits
  price := Measure.forall_of_reads h.price fun _ _ => Measure.Reads.admits

theorem EventRequest.Yields.wellFormed {r : EventRequest} {e : OrderEvent} (h : r.Yields e) (hr : r.Acceptable)
    (hproper : ∀ j ∈ r.closedPositions, j.Proper) : e.WellFormed where
  fillQuantity := Measure.forall_of_reads h.fillQuantity fun _ _ => Measure.Reads.admits
  fillPrice := Measure.forall_of_reads h.fillPrice fun _ _ => Measure.Reads.admits
  equity := Measure.forall_of_reads h.equity fun _ _ => Measure.Reads.admits
  closedPositions := by
    rw [h.closedPositions]
    intro text htext
    obtain ⟨j, hj, rfl⟩ := Option.map_eq_some_iff.1 htext
    exact (hproper j hj).canonical (hr.closedPositions j hj)

/-- Whatever becomes of a submission with proper documents is well formed. -/
theorem Submission.Becomes.wellFormed {c : Submission} {e : Errand} (h : c.Becomes e) (hc : c.request.Proper) :
    e.body.WellFormed := by
  have hyields := h.yields
  obtain ⟨entry, hentry, -⟩ := h
  have hacceptable := Request.acceptable_of_entry hentry
  generalize c.request = request at hyields hacceptable hc
  generalize e.body = body at hyields ⊢
  cases hyields with
  | signal hs => exact hs.wellFormed hacceptable
  | deliberation hd => exact hd.wellFormed hacceptable hc
  | execution hx => exact hx.wellFormed hacceptable
  | event hx => exact hx.wellFormed hacceptable hc

/-! ## Where rows come from -/

/-- The row reads as what one of these submissions became. -/
def Row.From (submissions : List Submission) (r : Row) : Prop :=
  ∃ c ∈ submissions, ∃ e, c.Becomes e ∧ ∃ env, Envelope.decode r.content = .ok env ∧ env.body = e.body

theorem Row.From.mono {submissions submissions' : List Submission} {r : Row} (h : r.From submissions)
    (hsub : submissions ⊆ submissions') : r.From submissions' := by
  obtain ⟨c, hc, h⟩ := h
  exact ⟨c, hsub hc, h⟩

/-- Every row comes from a call that was made. -/
def Sourced (x : Facts) (calls : List Call) : Prop :=
  ∀ t, ∀ r ∈ x.memory.rows.get t, r.From (calls.map Call.submission)

/-- A step changes no submission. -/
theorem submissions_set {calls : List Call} {i : ℕ} {c : Call} (hc : calls[i]? = some c) (p : Phase) :
    (calls.set i { c with phase := p }).map Call.submission = calls.map Call.submission := by
  have hget : (calls.map Call.submission)[i]? = some c.submission := by rw [List.getElem?_map, hc, Option.map_some]
  obtain ⟨hi, hsame⟩ := List.getElem?_eq_some_iff.1 hget
  rw [List.map_set, ← hsame, List.set_getElem_self hi]

section Sourced

variable {x x' : Facts} {calls calls' : List Call} {c : Call} {i : ℕ} {p : Phase}

theorem Sourced.step (h : Sourced x calls) (hchained : Chained x calls) (hc : calls[i]? = some c)
    (hstep : Phase.Step c.submission c.phase x p x') : Sourced x' (calls.set i { c with phase := p }) := by
  intro t r hr
  rw [submissions_set hc]
  rcases hstep.memory_cases with ⟨hsame, -⟩ | ⟨e, s, left, attempts, hphase, -, hmemory⟩
  · rw [hsame] at hr
    exact h t r hr
  · rw [hmemory, Memory.rows_push] at hr
    split_ifs at hr
    · rcases List.mem_append.1 hr with hr | hr
      · exact h t r hr
      · -- the new row is stamped from what the call carries
        rw [List.mem_singleton.1 hr]
        obtain ⟨-, now, hs⟩ := hchained.flight i e s ⟨c, left, attempts, hc, hphase⟩
        have hbecomes := hchained.becomes hc hphase
        refine ⟨c.submission, List.mem_map_of_mem (List.mem_of_getElem? hc), e, hbecomes,
          Engine.envelope (x.engine.tails.get e.body.table) now e.recordId e.body, ?_, rfl⟩
        rw [hs, Engine.content_follow]
        exact Envelope.decode_encode hbecomes.storable
    · exact h t r hr

theorem Sourced.move (h : Sourced x calls) (hchained : Chained x calls) (hmove : Move x calls x' calls') :
    Sourced x' calls' := by
  cases hmove with
  | step hc hstep => exact h.step hchained hc hstep
  | call c =>
    intro t r hr
    refine (h t r hr).mono ?_
    rw [List.map_append]
    exact List.subset_append_left _ _
  | clock _ | held _ _ _ | reopened _ _ _ => exact h

end Sourced

/-! ## Sessions -/

/-- The submissions that an event makes calls of. -/
def Event.submissions : Event → List Submission
  | .call c | .append c => [c]
  | .advance _ | .query _ | .clock _ | .hold _ | .free _ | .reopen _ _ => []

namespace Session

/-- An event adds its submissions to those of the calls. -/
theorem submissions_step {σ : Type} [Store σ] (s : Session σ) (e : Event) :
    (s.step e).calls.map Call.submission = s.calls.map Call.submission ++ e.submissions := by
  have same {calls : List Call} (h : calls = s.calls) :
      calls.map Call.submission = s.calls.map Call.submission ++ [] := by rw [h, List.append_nil]
  cases e with
  | call c | append c => exact List.map_append
  | query _ | clock _ | hold _ => exact same rfl
  | advance i =>
    rw [Event.submissions, List.append_nil]
    show (s.advance i).calls.map Call.submission = _
    unfold advance
    split
    · rfl
    · exact submissions_set ‹_› _
  | free t =>
    refine same ?_
    rw [step]
    split <;> rfl
  | reopen settings sink =>
    refine same ?_
    rw [step]
    split
    · unfold reopen
      split <;> rfl
    · rfl

theorem submissions_run {σ : Type} [Store σ] (s : Session σ) (events : List Event) :
    (s.run events).calls.map Call.submission = s.calls.map Call.submission ++ events.flatMap Event.submissions := by
  induction events generalizing s with
  | nil => rw [List.flatMap_nil, List.append_nil, run, List.foldl_nil]
  | cons e events ih =>
    rw [List.flatMap_cons, ← List.append_assoc, ← submissions_step]
    exact ih (s.step e)

variable {s : Session Flaky}

/-- Every row of a session that started without any comes from a call that was made in it. -/
theorem sourced_run (h : s.Recorded) (hempty : ∀ t, s.rows t = []) (events : List Event) :
    Sourced (s.run events).running.facts (s.run events).calls := by
  have hstart : Sourced s.running.facts s.calls := by
    intro t r hr
    rw [show s.running.facts.memory.rows.get t = [] from hempty t] at hr
    cases hr
  have hreaches := (run_chained h.chained events).2
  exact (hreaches.keeps (P := fun x calls => Chained x calls ∧ Sourced x calls)
    (fun hmove h => ⟨h.1.move hmove, h.2.move h.1 hmove⟩) ⟨h.chained, hstart⟩).2

/-- A ledger opens over an empty store, and whatever happens since, however calls interleave, whichever
appends fail and however often the ledger is opened again: every row that is stored is a well-formed fact
of its table, provided that the documents that came with the calls were proper, as all are that are read. -/
theorem facts_wellFormed (settings : Settings) (sink : Sink) (faults : List (Option Failure)) (now : Instant) :
    ∃ w : Running Flaky,
      Ledger.opened settings sink { store := ⟨.empty, faults⟩, now, journal := [], alerts := [] } =
        (.ok w.ledger, w.site) ∧
      ∀ events, (∀ c ∈ events.flatMap Event.submissions, c.request.Proper) →
        ∀ t, ∀ r ∈ ((⟨w, []⟩ : Session Flaky).run events).rows t, r.WellFormed t := by
  obtain ⟨w, hopened, hrecorded, hempty⟩ := recorded_of_opened settings sink faults now
  refine ⟨w, hopened, fun events hproper t r hr => ?_⟩
  obtain ⟨c, hc, e, hbecomes, env, henv, hbody⟩ := sourced_run hrecorded hempty events t r hr
  rw [submissions_run, List.map_nil, List.nil_append] at hc
  obtain ⟨env', henv', htable, -⟩ := (consistent_of_recorded hrecorded hempty events).kinds t r hr
  cases henv.symm.trans henv'
  exact ⟨env, henv, htable, hbody ▸ hbecomes.wellFormed (hproper c hc)⟩

/-- Why a model trusts a signal. -/
def reasons : Json := .object [("a", .text "x"), ("b", .list [.integer 1, .real ⟨false, 5629499534213120, -51⟩])]

/-- The text it comes in has blanks, and its members are not in order. -/
theorem parse_reasons : Json.parse? "\x7b\"b\": [1, 25e-1], \"a\": \"x\"\x7d" = some reasons := by rfl

def thought : Submission where
  caller := ⟨"reviewer", .deliberation⟩
  draws := ⟨Uuid.made 1 2, []⟩
  request := .deliberation {
    correlationId := Uuid.made 2 1
    model := "risk-7"
    reasoning := reasons
    confidence := .text "0.85"
    elapsedMillis := 12
    timedOut := false }
  fits := by constructor <;> simp only [Text.Storable] <;> decide +kernel

/-- The thought is stored behind the alert that it is about. -/
theorem facts_wellFormed_thought :
    (∀ c ∈ [Event.append alert, .append thought].flatMap Event.submissions, c.request.Proper) ∧
      ∃ w : Running Flaky,
        Ledger.opened {} .log { store := ⟨.empty, []⟩, now := 0, journal := [], alerts := [] } = (.ok w.ledger, w.site) ∧
        (((⟨w, []⟩ : Session Flaky).run [.append alert, .append thought]).rows .deliberations).length = 1 ∧
        ∀ t, ∀ r ∈ ((⟨w, []⟩ : Session Flaky).run [.append alert, .append thought]).rows t, r.WellFormed t := by
  have hproper : ∀ c ∈ [Event.append alert, .append thought].flatMap Event.submissions, c.request.Proper := by
    intro c hc
    rcases List.mem_pair.1 hc with rfl | rfl
    · trivial
    · exact Json.proper_parse parse_reasons
  obtain ⟨w, hopened, hrun⟩ := facts_wellFormed {} .log [] 0
  refine ⟨hproper, w, hopened, ?_, hrun _ hproper⟩
  obtain ⟨ledger, site⟩ := w
  cases hopened
  rfl

end Session

end TradeLedger

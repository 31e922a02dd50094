/-
A request that passes its checks asks for a body that can be stored. Figures come out of the gateway
as decimals that read back; texts go into the body as they are, so that they have to fit in memory,
which is what `Fits` says of them: eight octets hold their lengths.
-/
import TradeLedger.Ledger.Append
import TradeLedger.Proofs.Codec.Envelope
import TradeLedger.Proofs.Decimal.Exactness

namespace TradeLedger

open Codec

/-! ## Requests that fit in memory -/

structure SignalRequest.Fits (r : SignalRequest) : Prop where
  dedupeKey : Text.Storable r.dedupeKey
  symbol : Text.Storable r.symbol
  request : r.request.length < 256 ^ 8
  sourceAddress : ∀ a ∈ r.sourceAddress, Text.Storable a

structure DeliberationRequest.Fits (r : DeliberationRequest) : Prop where
  model : Text.Storable r.model
  reasoning : Text.Storable r.reasoning.canonical

structure ExecutionRequest.Fits (r : ExecutionRequest) : Prop where
  symbol : Text.Storable r.symbol
  externalOrderId : ∀ i ∈ r.externalOrderId, Text.Storable i

structure EventRequest.Fits (r : EventRequest) : Prop where
  closedPositions : ∀ j ∈ r.closedPositions, Text.Storable j.canonical
  rejectionDetail : ∀ d ∈ r.rejectionDetail, Text.Storable d
  externalErrorCode : ∀ c ∈ r.externalErrorCode, Text.Storable c

/-- Every text of the request, and the canonical text of every document in it, fits in memory. -/
def Request.Fits : Request → Prop
  | .signal r => r.Fits
  | .deliberation r => r.Fits
  | .execution r => r.Fits
  | .event r => r.Fits

/-! ## What is asked for -/

/-- The gateway reads the figure as this decimal. -/
def Measure.Reads (m : Measure) (f : Figure) (d : Decimal) : Prop := m.accept f = .ok d

/-- The signal says what the request does, its figures as the gateway reads them. -/
structure SignalRequest.Yields (r : SignalRequest) (s : Signal) : Prop where
  dedupeKey : s.dedupeKey = r.dedupeKey
  symbol : s.symbol = r.symbol
  side : s.side = r.side
  price : Option.Rel Measure.price.Reads r.price s.price
  quantity : Measure.quantity.Reads r.quantity s.quantity
  request : s.request = r.request
  sourceAddress : s.sourceAddress = r.sourceAddress
  authenticated : s.authenticated = r.authenticated

structure DeliberationRequest.Yields (r : DeliberationRequest) (d : Deliberation) : Prop where
  correlationId : d.correlationId = r.correlationId
  model : d.model = r.model
  reasoning : d.reasoning = r.reasoning.canonical
  confidence : Measure.confidence.Reads r.confidence d.confidence
  elapsedMillis : d.elapsedMillis = r.elapsedMillis
  timedOut : d.timedOut = r.timedOut

structure ExecutionRequest.Yields (r : ExecutionRequest) (e : Execution) : Prop where
  correlationId : e.correlationId = r.correlationId
  kind : e.kind = r.kind
  symbol : e.symbol = r.symbol
  side : e.side = r.side
  quantity : Measure.quantity.Reads r.quantity e.quantity
  price : Option.Rel Measure.price.Reads r.price e.price
  externalOrderId : e.externalOrderId = r.externalOrderId
  status : e.status = r.status

structure EventRequest.Yields (r : EventRequest) (e : OrderEvent) : Prop where
  executionId : e.executionId = r.executionId
  kind : e.kind = r.kind
  fillQuantity : Option.Rel Measure.quantity.Reads r.fillQuantity e.fillQuantity
  fillPrice : Option.Rel Measure.price.Reads r.fillPrice e.fillPrice
  equity : Option.Rel Measure.currency.Reads r.equity e.equity
  closedPositions : e.closedPositions = r.closedPositions.map Json.canonical
  rejectionDetail : e.rejectionDetail = r.rejectionDetail
  externalErrorCode : e.externalErrorCode = r.externalErrorCode

/-- The body says what the request does, and documents in their canonical texts. -/
inductive Request.Yields : Request → Body → Prop where
  | signal {r : SignalRequest} {s : Signal} : r.Yields s → Yields (.signal r) (.signal s)
  | deliberation {r : DeliberationRequest} {d : Deliberation} : r.Yields d → Yields (.deliberation r) (.deliberation d)
  | execution {r : ExecutionRequest} {e : Execution} : r.Yields e → Yields (.execution r) (.execution e)
  | event {r : EventRequest} {e : OrderEvent} : r.Yields e → Yields (.event r) (.event e)

theorem Request.Yields.table {r : Request} {b : Body} (h : r.Yields b) : b.table = r.table := by
  cases h <;> rfl

/-! ## Fields -/

namespace Field

variable {field : String} {m : Measure} {id : Option Uuid}

theorem reads_figure {f : Figure} {d : Decimal} (h : figure field m id f = .ok d) : m.Reads f d := by
  unfold figure at h
  split at h
  · cases h
    assumption
  · cases h

theorem reads_optionalFigure {o : Option Figure} {p : Option Decimal} (h : optionalFigure field m id o = .ok p) :
    Option.Rel m.Reads o p := by
  cases o with
  | none =>
    cases h
    exact .none
  | some f =>
    obtain ⟨d, hd, hp⟩ := bind_eq_ok h
    cases hp
    exact .some (reads_figure hd)

theorem document_eq_ok {j : Json} {text : String} (h : document field j = .ok text) : text = j.canonical := by
  cases j <;> cases h <;> rfl

theorem optionalDocument_eq_ok {o : Option Json} {p : Option String} (h : optionalDocument field o = .ok p) :
    p = o.map Json.canonical := by
  cases o with
  | none => cases h; rfl
  | some j =>
    obtain ⟨text, ht, hp⟩ := bind_eq_ok h
    cases hp
    rw [document_eq_ok ht, Option.map_some]

end Field

/-! ## Bodies that are asked for -/

/-- The signal that is asked for is given any identifier. -/
theorem SignalRequest.yields_signal {r : SignalRequest} {f : Uuid → Signal} (h : r.signal = .ok f) (id : Uuid) :
    r.Yields (f id) ∧ (f id).correlationId = id := by
  obtain ⟨-, -, h⟩ := bind_eq_ok h
  obtain ⟨-, -, h⟩ := bind_eq_ok h
  obtain ⟨quantity, hquantity, h⟩ := bind_eq_ok h
  obtain ⟨price, hprice, h⟩ := bind_eq_ok h
  cases h
  exact ⟨⟨rfl, rfl, rfl, Field.reads_optionalFigure hprice, Field.reads_figure hquantity, rfl, rfl, rfl⟩, rfl⟩

theorem DeliberationRequest.yields_deliberation {r : DeliberationRequest} {d : Deliberation}
    (h : r.deliberation = .ok d) : r.Yields d := by
  obtain ⟨-, -, h⟩ := bind_eq_ok h
  obtain ⟨confidence, hconfidence, h⟩ := bind_eq_ok h
  obtain ⟨reasoning, hreasoning, h⟩ := bind_eq_ok h
  cases h
  exact ⟨rfl, rfl, Field.document_eq_ok hreasoning, Field.reads_figure hconfidence, rfl, rfl⟩

theorem ExecutionRequest.yields_execution {r : ExecutionRequest} {e : Execution} (h : r.execution = .ok e) :
    r.Yields e := by
  obtain ⟨-, -, h⟩ := bind_eq_ok h
  obtain ⟨-, -, h⟩ := bind_eq_ok h
  obtain ⟨quantity, hquantity, h⟩ := bind_eq_ok h
  obtain ⟨price, hprice, h⟩ := bind_eq_ok h
  cases h
  exact ⟨rfl, rfl, rfl, rfl, Field.reads_figure hquantity, Field.reads_optionalFigure hprice, rfl, rfl⟩

theorem EventRequest.yields_event {r : EventRequest} {e : OrderEvent} (h : r.event = .ok e) : r.Yields e := by
  obtain ⟨fillQuantity, hfillQuantity, h⟩ := bind_eq_ok h
  obtain ⟨fillPrice, hfillPrice, h⟩ := bind_eq_ok h
  obtain ⟨equity, hequity, h⟩ := bind_eq_ok h
  obtain ⟨closedPositions, hclosedPositions, h⟩ := bind_eq_ok h
  cases h
  exact ⟨rfl, rfl, Field.reads_optionalFigure hfillQuantity, Field.reads_optionalFigure hfillPrice,
    Field.reads_optionalFigure hequity, Field.optionalDocument_eq_ok hclosedPositions, rfl, rfl⟩

/-- What every reading of a figure has, the decimal that is read of it has, if there is one. -/
theorem Measure.forall_of_reads {m : Measure} {o : Option Figure} {p : Option Decimal} {P : Decimal → Prop}
    (h : Option.Rel m.Reads o p) (hP : ∀ f d, m.Reads f d → P d) : ∀ d ∈ p, P d := by
  intro d hd
  cases h with
  | none => cases hd
  | some h =>
    cases hd
    exact hP _ _ h

/-! ### Bodies that can be stored -/

/-- What comes out of the gateway reads back. -/
theorem Measure.Reads.storable {m : Measure} {f : Figure} {d : Decimal} (h : m.Reads f d) : d.Storable :=
  Decimal.storable_iff.2 (signed_accept h)

theorem SignalRequest.Yields.storable {r : SignalRequest} {s : Signal} (h : r.Yields s) (hr : r.Fits) : s.Storable where
  dedupeKey := h.dedupeKey ▸ hr.dedupeKey
  symbol := h.symbol ▸ hr.symbol
  price := Measure.forall_of_reads h.price fun _ _ => Measure.Reads.storable
  quantity := h.quantity.storable
  request := h.request ▸ hr.request
  sourceAddress := h.sourceAddress ▸ hr.sourceAddress

theorem DeliberationRequest.Yields.storable {r : DeliberationRequest} {d : Deliberation} (h : r.Yields d)
    (hr : r.Fits) : d.Storable where
  model := h.model ▸ hr.model
  reasoning := h.reasoning ▸ hr.reasoning
  confidence := h.confidence.storable

theorem ExecutionRequest.Yields.storable {r : ExecutionRequest} {e : Execution} (h : r.Yields e) (hr : r.Fits) :
    e.Storable where
  symbol := h.symbol ▸ hr.symbol
  quantity := h.quantity.storable
  price := Measure.forall_of_reads h.price fun _ _ => Measure.Reads.storable
  externalOrderId := h.externalOrderId ▸ hr.externalOrderId

theorem EventRequest.Yields.storable {r : EventRequest} {e : OrderEvent} (h : r.Yields e) (hr : r.Fits) :
    e.Storable where
  fillQuantity := Measure.forall_of_reads h.fillQuantity fun _ _ => Measure.Reads.storable
  fillPrice := Measure.forall_of_reads h.fillPrice fun _ _ => Measure.Reads.storable
  equity := Measure.forall_of_reads h.equity fun _ _ => Measure.Reads.storable
  closedPositions := by
    rw [h.closedPositions]
    intro text htext
    obtain ⟨j, hj, rfl⟩ := Option.map_eq_some_iff.1 htext
    exact hr.closedPositions j hj
  rejectionDetail := h.rejectionDetail ▸ hr.rejectionDetail
  externalErrorCode := h.externalErrorCode ▸ hr.externalErrorCode

/-! ## Refusals -/

/-- The alert that a line in the log is about. -/
def Notice.alert? : Notice → Option Alert
  | .alert a => some a
  | _ => none

/-- How something malformed is refused: it is coded as such, and nothing is raised. -/
structure Refusal.OfMalformed (refusal : Refusal) : Prop where
  code : refusal.failure.code? = some .malformed
  unraised : ∀ n ∈ refusal.notices, n.alert? = none

/-- Whatever this check refuses is refused as malformed. -/
def Malformed {α : Type} (r : Except Refusal α) : Prop :=
  ∀ refusal, r = .error refusal → refusal.OfMalformed

namespace Malformed

variable {α β : Type}

theorem ok (a : α) : Malformed (.ok a) := nofun

theorem noted {failure : Failure} {notice : Notice} (hfailure : failure.code? = some .malformed)
    (hnotice : notice.alert? = none) : Malformed (.error (.noted failure notice) : Except Refusal α) := by
  rintro _ ⟨⟩
  exact ⟨hfailure, List.forall_mem_singleton.2 hnotice⟩

theorem bind {x : Except Refusal α} {f : α → Except Refusal β} (hx : Malformed x) (hf : ∀ a, Malformed (f a)) :
    Malformed (x >>= f) := by
  cases x with
  | ok a => exact hf a
  | error refusal =>
    rintro _ ⟨⟩
    exact hx refusal rfl

theorem text (field value : String) : Malformed (Field.text field value) := by
  unfold Field.text
  split
  · exact noted rfl rfl
  · exact ok ()

theorem optionalText (field : String) (value : Option String) : Malformed (Field.optionalText field value) := by
  cases value with
  | none => exact ok ()
  | some value => exact text field value

theorem figure (field : String) (m : Measure) (id : Option Uuid) (f : Figure) :
    Malformed (Field.figure field m id f) := by
  unfold Field.figure
  split
  · exact ok _
  · rename_i cause _
    cases cause <;> exact noted rfl rfl

theorem optionalFigure (field : String) (m : Measure) (id : Option Uuid) (f : Option Figure) :
    Malformed (Field.optionalFigure field m id f) := by
  cases f with
  | none => exact ok none
  | some f => exact (figure field m id f).bind fun _ => ok _

theorem document (field : String) (j : Json) : Malformed (Field.document field j) := by
  cases j with
  | null => rintro _ ⟨⟩; exact ⟨rfl, nofun⟩
  | _ => exact ok _

theorem optionalDocument (field : String) (j : Option Json) : Malformed (Field.optionalDocument field j) := by
  cases j with
  | none => exact ok none
  | some j => exact (document field j).bind fun _ => ok _

/-- Whatever is wrong with a request, it is refused as malformed. -/
theorem entry (r : Request) : Malformed r.entry := by
  cases r with
  | signal r =>
    refine bind ?_ fun _ => ok _
    exact (text _ _).bind fun _ => (text _ _).bind fun _ => (figure _ _ _ _).bind fun _ =>
      (optionalFigure _ _ _ _).bind fun _ => ok _
  | deliberation r =>
    refine bind ?_ fun _ => ok _
    exact (text _ _).bind fun _ => (figure _ _ _ _).bind fun _ => (document _ _).bind fun _ => ok _
  | execution r =>
    refine bind ?_ fun _ => ok _
    exact (text _ _).bind fun _ => (optionalText _ _).bind fun _ => (figure _ _ _ _).bind fun _ =>
      (optionalFigure _ _ _ _).bind fun _ => ok _
  | event r =>
    refine bind ?_ fun _ => ok _
    exact (optionalFigure _ _ _ _).bind fun _ => (optionalFigure _ _ _ _).bind fun _ =>
      (optionalFigure _ _ _ _).bind fun _ => (optionalDocument _ _).bind fun _ => ok _

end Malformed

/-! ## Entries -/

/-- Whatever identifier a signal is given, the body of an entry can be stored. -/
def Entry.Storable : Entry → Prop
  | .signal _ f => ∀ id, (f id).Storable
  | .deliberation d => d.Storable
  | .execution e => e.Storable
  | .event e => e.Storable

namespace Request

variable {r : Request}

/-- What is asked for, by the kind of the request. -/
inductive Enters : Request → Entry → Prop where
  | signal {r : SignalRequest} {f : Uuid → Signal} :
      (∀ id, r.Yields (f id) ∧ (f id).correlationId = id) → Enters (.signal r) (.signal r.dedupeKey f)
  | deliberation {r : DeliberationRequest} {d : Deliberation} : r.Yields d → Enters (.deliberation r) (.deliberation d)
  | execution {r : ExecutionRequest} {e : Execution} : r.Yields e → Enters (.execution r) (.execution e)
  | event {r : EventRequest} {e : OrderEvent} : r.Yields e → Enters (.event r) (.event e)

theorem enters_of_entry {entry : Entry} (h : r.entry = .ok entry) : r.Enters entry := by
  cases r with
  | signal r =>
    obtain ⟨f, hf, h⟩ := bind_eq_ok h
    cases h
    exact .signal (r.yields_signal hf)
  | deliberation r =>
    obtain ⟨d, hd, h⟩ := bind_eq_ok h
    cases h
    exact .deliberation (r.yields_deliberation hd)
  | execution r =>
    obtain ⟨e, he, h⟩ := bind_eq_ok h
    cases h
    exact .execution (r.yields_execution he)
  | event r =>
    obtain ⟨e, he, h⟩ := bind_eq_ok h
    cases h
    exact .event (r.yields_event he)

theorem storable_entry {entry : Entry} (h : r.entry = .ok entry) (hr : r.Fits) : entry.Storable := by
  cases enters_of_entry h with
  | signal hf => exact fun id => (hf id).1.storable hr
  | deliberation hd => exact hd.storable hr
  | execution he => exact he.storable hr
  | event he => exact he.storable hr

/-- Only a request for a signal has the entry of one, under its own dedupe key. -/
theorem entry_eq_signal {dedupeKey : String} {signal : Uuid → Signal} (h : r.entry = .ok (.signal dedupeKey signal)) :
    ∃ q, r = .signal q ∧ q.dedupeKey = dedupeKey ∧
      ∀ id, (signal id).dedupeKey = dedupeKey ∧ (signal id).correlationId = id := by
  cases enters_of_entry h with
  | signal hf => exact ⟨_, rfl, rfl, fun id => ⟨(hf id).1.dedupeKey, (hf id).2⟩⟩

end Request

end TradeLedger

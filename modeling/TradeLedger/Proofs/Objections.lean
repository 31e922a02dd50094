/-
What is required of the fields of a request, said apart from its checks. There is an objection to a field or
there is none, whatever the other fields say, and a request is refused for the first objection in the order
of the checks.
-/
import TradeLedger.Proofs.Request

namespace TradeLedger

open Codec

/-! ## What fields must say -/

/-- A character of the text is not blank. -/
def Text.Says (s : String) : Prop := ∃ c ∈ s.toList, Text.isBlank c = false

instance (s : String) : Decidable (Text.Says s) := inferInstanceAs (Decidable (∃ c ∈ s.toList, _))

theorem Text.says_iff {s : String} : Text.Says s ↔ Text.blank s = false := by
  rw [Text.blank, List.all_eq_false]
  simp only [Text.Says, Bool.not_eq_true]

/-- The gateway lets the figure in. -/
def Measure.Accepts (m : Measure) (f : Figure) : Prop := ∃ d, m.Reads f d

@[mk_iff] structure SignalRequest.Acceptable (r : SignalRequest) : Prop where
  dedupeKey : Text.Says r.dedupeKey
  symbol : Text.Says r.symbol
  quantity : Measure.quantity.Accepts r.quantity
  price : ∀ f ∈ r.price, Measure.price.Accepts f

@[mk_iff] structure DeliberationRequest.Acceptable (r : DeliberationRequest) : Prop where
  model : Text.Says r.model
  confidence : Measure.confidence.Accepts r.confidence
  reasoning : r.reasoning ≠ .null

@[mk_iff] structure ExecutionRequest.Acceptable (r : ExecutionRequest) : Prop where
  symbol : Text.Says r.symbol
  externalOrderId : ∀ i ∈ r.externalOrderId, Text.Says i
  quantity : Measure.quantity.Accepts r.quantity
  price : ∀ f ∈ r.price, Measure.price.Accepts f

@[mk_iff] structure EventRequest.Acceptable (r : EventRequest) : Prop where
  fillQuantity : ∀ f ∈ r.fillQuantity, Measure.quantity.Accepts f
  fillPrice : ∀ f ∈ r.fillPrice, Measure.price.Accepts f
  equity : ∀ f ∈ r.equity, Measure.currency.Accepts f
  closedPositions : ∀ j ∈ r.closedPositions, j ≠ .null

def Request.Acceptable : Request → Prop
  | .signal r => r.Acceptable
  | .deliberation r => r.Acceptable
  | .execution r => r.Acceptable
  | .event r => r.Acceptable

/-! ## Objections -/

/-! What there is to be said against a field, if anything. -/

namespace Objection

def text (field value : String) : Option Failure :=
  if Text.Says value then none else some (.malformedField field "must not be empty")

def figure (field : String) (m : Measure) (f : Figure) : Option Failure :=
  match m.accept f with
  | .ok _ => none
  | .error cause => some (.ofRejection field cause)

def document (field : String) : Json → Option Failure
  | .null => some (.malformedField field "document must not be null")
  | _ => none

@[simp] theorem text_eq_none {field value : String} : text field value = none ↔ Text.Says value := by
  unfold text
  split <;> simp [*]

@[simp] theorem figure_eq_none {field : String} {m : Measure} {f : Figure} :
    figure field m f = none ↔ m.Accepts f := by
  unfold figure Measure.Accepts Measure.Reads
  split <;> simp [*]

@[simp] theorem document_eq_none {field : String} {j : Json} : document field j = none ↔ j ≠ .null := by
  cases j <;> simp [document]

end Objection

namespace Request

/-- The objections to the fields, in the order in which the fields are checked. -/
def objections : Request → List (Option Failure)
  | .signal r => [
      Objection.text "dedupe_key" r.dedupeKey,
      Objection.text "symbol" r.symbol,
      Objection.figure "quantity" .quantity r.quantity,
      r.price.bind (Objection.figure "price" .price)]
  | .deliberation r => [
      Objection.text "model_id" r.model,
      Objection.figure "confidence" .confidence r.confidence,
      Objection.document "reasoning" r.reasoning]
  | .execution r => [
      Objection.text "symbol" r.symbol,
      r.externalOrderId.bind (Objection.text "external_order_id"),
      Objection.figure "quantity" .quantity r.quantity,
      r.price.bind (Objection.figure "price" .price)]
  | .event r => [
      r.fillQuantity.bind (Objection.figure "fill_quantity" .quantity),
      r.fillPrice.bind (Objection.figure "fill_price" .price),
      r.equity.bind (Objection.figure "equity_snapshot" .currency),
      r.closedPositions.bind (Objection.document "closed_positions")]

def objection? (r : Request) : Option Failure := r.objections.findSome? id

/-- What is acceptable is not objected to, and all else is. -/
theorem objection?_eq_none (r : Request) : r.objection? = none ↔ r.Acceptable := by
  unfold objection?
  rw [List.findSome?_eq_none_iff]
  cases r with
  | signal r => simp [objections, Acceptable, SignalRequest.acceptable_iff]
  | deliberation r => simp [objections, Acceptable, DeliberationRequest.acceptable_iff]
  | execution r => simp [objections, Acceptable, ExecutionRequest.acceptable_iff]
  | event r => simp [objections, Acceptable, EventRequest.acceptable_iff]

end Request

/-! ## Checks -/

/-- The check refuses for the first of these objections, and passes if there is none. -/
def Heeds {α : Type} (r : Except Refusal α) (objections : List (Option Failure)) : Prop :=
  objections.findSome? id =
    match r with
    | .ok _ => none
    | .error refusal => some refusal.failure

namespace Heeds

variable {α β : Type}

theorem bind {x : Except Refusal α} {f : α → Except Refusal β} {os os' : List (Option Failure)} (hx : Heeds x os)
    (hf : ∀ a, Heeds (f a) os') : Heeds (x >>= f) (os ++ os') := by
  unfold Heeds at hx ⊢
  rw [List.findSome?_append, hx]
  cases x with
  | ok a => exact hf a
  | error refusal => rfl

theorem map {x : Except Refusal α} {os : List (Option Failure)} (hx : Heeds x os) (f : α → β) :
    Heeds (x >>= fun a => pure (f a)) os := by
  unfold Heeds at hx ⊢
  cases x <;> exact hx

theorem text (field value : String) : Heeds (Field.text field value) [Objection.text field value] := by
  unfold Field.text Objection.text
  simp only [Text.says_iff]
  cases Text.blank value <;> rfl

theorem optionalText (field : String) (value : Option String) :
    Heeds (Field.optionalText field value) [value.bind (Objection.text field)] := by
  cases value with
  | none => rfl
  | some value =>
    rw [Field.optionalText, Option.bind_some]
    exact text field value

theorem figure (field : String) (m : Measure) (id : Option Uuid) (f : Figure) :
    Heeds (Field.figure field m id f) [Objection.figure field m f] := by
  unfold Field.figure Objection.figure
  cases m.accept f <;> rfl

theorem optionalFigure (field : String) (m : Measure) (id : Option Uuid) (f : Option Figure) :
    Heeds (Field.optionalFigure field m id f) [f.bind (Objection.figure field m)] := by
  cases f with
  | none => rfl
  | some f => exact (figure field m id f).map some

theorem document (field : String) (j : Json) : Heeds (Field.document field j) [Objection.document field j] := by
  cases j <;> rfl

theorem optionalDocument (field : String) (j : Option Json) :
    Heeds (Field.optionalDocument field j) [j.bind (Objection.document field)] := by
  cases j with
  | none => rfl
  | some j => exact (document field j).map some

/-- A request is checked field by field. -/
theorem entry (r : Request) : Heeds r.entry r.objections := by
  cases r with
  | signal r =>
    exact map ((text _ _).bind fun _ => (text _ _).bind fun _ => (figure _ _ _ _).bind fun _ =>
      (optionalFigure _ _ _ _).map _) _
  | deliberation r =>
    exact map ((text _ _).bind fun _ => (figure _ _ _ _).bind fun _ => (document _ _).map _) _
  | execution r =>
    exact map ((text _ _).bind fun _ => (optionalText _ _).bind fun _ => (figure _ _ _ _).bind fun _ =>
      (optionalFigure _ _ _ _).map _) _
  | event r =>
    exact map ((optionalFigure _ _ _ _).bind fun _ => (optionalFigure _ _ _ _).bind fun _ =>
      (optionalFigure _ _ _ _).bind fun _ => (optionalDocument _ _).map _) _

end Heeds

namespace Request

variable {r : Request}

/-- A request that passes its checks is acceptable. -/
theorem acceptable_of_entry {entry : Entry} (h : r.entry = .ok entry) : r.Acceptable := by
  have hheeds := Heeds.entry r
  rw [h] at hheeds
  exact r.objection?_eq_none.1 hheeds

/-- A request that is refused is refused for the first objection. -/
theorem objection?_of_entry {refusal : Refusal} (h : r.entry = .error refusal) :
    r.objection? = some refusal.failure := by
  have hheeds := Heeds.entry r
  rwa [h] at hheeds

/-- What is acceptable passes the checks, -/
theorem exists_entry (h : r.Acceptable) : ∃ entry, r.entry = .ok entry := by
  cases hentry : r.entry with
  | ok entry => exact ⟨entry, rfl⟩
  | error refusal =>
    have hobjection := objection?_of_entry hentry
    rw [r.objection?_eq_none.2 h] at hobjection
    cases hobjection

/-- and all else is refused. -/
theorem exists_refusal (h : ¬ r.Acceptable) :
    ∃ refusal, r.entry = .error refusal ∧ r.objection? = some refusal.failure := by
  cases hentry : r.entry with
  | ok entry => exact absurd (acceptable_of_entry hentry) h
  | error refusal => exact ⟨refusal, rfl, objection?_of_entry hentry⟩

end Request

end TradeLedger

/-
Requests to append, and the checks that need nothing but the request: texts that must say something,
figures that must pass the gateway, documents that must not be null. A request that passes has a
body; one that does not is refused for the first thing found wrong with it.
-/
import TradeLedger.Body
import TradeLedger.Json.Canonical
import TradeLedger.Notice
import TradeLedger.Text.Blank

namespace TradeLedger

/-- Why a request goes no further, and what is logged about it. -/
structure Refusal where
  failure : Failure
  notices : List Notice
  deriving DecidableEq

namespace Refusal

/-- Refused with a line in the log. -/
def noted (failure : Failure) (notice : Notice) : Refusal := ⟨failure, [notice]⟩

end Refusal

namespace Mutation

/-- Every attempt to change what is committed is refused, whoever makes it. -/
def refusal (m : Mutation) : Refusal :=
  .noted (.immutable m.table m.change) (.mutationRejected m)

end Mutation

/-! ## Checks of single fields -/

namespace Field

/-- A text that is not blank. -/
def text (field value : String) : Except Refusal Unit :=
  if Text.blank value then
    .error (.noted (.malformedField field "must not be empty") (.emptyField field))
  else .ok ()

def optionalText (field : String) : Option String → Except Refusal Unit
  | none => .ok ()
  | some value => text field value

/-- A figure that passes the gateway. -/
def figure (field : String) (m : Measure) (correlationId : Option Uuid) (f : Figure) :
    Except Refusal Decimal :=
  match m.accept f with
  | .ok d => .ok d
  | .error cause =>
    .error (.noted (.ofRejection field cause) (.figureRejected field correlationId cause))

def optionalFigure (field : String) (m : Measure) (correlationId : Option Uuid) :
    Option Figure → Except Refusal (Option Decimal)
  | none => .ok none
  | some f => do
    let d ← figure field m correlationId f
    return some d

/-- The canonical text of a document that is not null. -/
def document (field : String) : Json → Except Refusal String
  | .null => .error ⟨.malformedField field "document must not be null", []⟩
  | j => .ok j.canonical

def optionalDocument (field : String) : Option Json → Except Refusal (Option String)
  | none => .ok none
  | some j => do
    let text ← document field j
    return some text

end Field

/-! ## Requests -/

structure SignalRequest where
  dedupeKey : String
  symbol : String
  side : Side
  price : Option Figure
  quantity : Figure
  request : Bytes
  sourceAddress : Option String
  authenticated : Bool

structure DeliberationRequest where
  correlationId : Uuid
  model : String
  reasoning : Json
  confidence : Figure
  elapsedMillis : UInt64
  timedOut : Bool

structure ExecutionRequest where
  correlationId : Uuid
  kind : OrderKind
  symbol : String
  side : Side
  quantity : Figure
  price : Option Figure
  externalOrderId : Option String
  status : OrderStatus

structure EventRequest where
  executionId : Uuid
  kind : EventKind
  fillQuantity : Option Figure
  fillPrice : Option Figure
  equity : Option Figure
  closedPositions : Option Json
  rejectionDetail : Option String
  externalErrorCode : Option String

namespace SignalRequest

/-- The signal that is asked for, up to the identifier it is given. -/
def signal (r : SignalRequest) : Except Refusal (Uuid → Signal) := do
  Field.text "dedupe_key" r.dedupeKey
  Field.text "symbol" r.symbol
  let quantity ← Field.figure "quantity" .quantity none r.quantity
  let price ← Field.optionalFigure "price" .price none r.price
  return fun correlationId => {
    dedupeKey := r.dedupeKey
    correlationId := correlationId
    symbol := r.symbol
    side := r.side
    price := price
    quantity := quantity
    request := r.request
    sourceAddress := r.sourceAddress
    authenticated := r.authenticated }

end SignalRequest

namespace DeliberationRequest

def deliberation (r : DeliberationRequest) : Except Refusal Deliberation := do
  Field.text "model_id" r.model
  let confidence ← Field.figure "confidence" .confidence (some r.correlationId) r.confidence
  let reasoning ← Field.document "reasoning" r.reasoning
  return {
    correlationId := r.correlationId
    model := r.model
    reasoning := reasoning
    confidence := confidence
    elapsedMillis := r.elapsedMillis
    timedOut := r.timedOut }

end DeliberationRequest

namespace ExecutionRequest

def execution (r : ExecutionRequest) : Except Refusal Execution := do
  Field.text "symbol" r.symbol
  Field.optionalText "external_order_id" r.externalOrderId
  let quantity ← Field.figure "quantity" .quantity (some r.correlationId) r.quantity
  let price ← Field.optionalFigure "price" .price (some r.correlationId) r.price
  return {
    correlationId := r.correlationId
    kind := r.kind
    symbol := r.symbol
    side := r.side
    quantity := quantity
    price := price
    externalOrderId := r.externalOrderId
    status := r.status }

end ExecutionRequest

namespace EventRequest

def event (r : EventRequest) : Except Refusal OrderEvent := do
  let fillQuantity ← Field.optionalFigure "fill_quantity" .quantity none r.fillQuantity
  let fillPrice ← Field.optionalFigure "fill_price" .price none r.fillPrice
  let equity ← Field.optionalFigure "equity_snapshot" .currency none r.equity
  let closedPositions ← Field.optionalDocument "closed_positions" r.closedPositions
  return {
    executionId := r.executionId
    kind := r.kind
    fillQuantity := fillQuantity
    fillPrice := fillPrice
    equity := equity
    closedPositions := closedPositions
    rejectionDetail := r.rejectionDetail
    externalErrorCode := r.externalErrorCode }

end EventRequest

end TradeLedger

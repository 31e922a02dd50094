/-
What a record says: a signal, a deliberation about it, an order sent for it, or an event in the life
of that order. Each kind of body belongs to one table and links to one identifier.
-/
import TradeLedger.Decimal
import TradeLedger.Table
import TradeLedger.Uuid

namespace TradeLedger

/-! ## Words of the trade -/

/-- The direction of a trade. -/
inductive Side where
  | buy
  | sell
  deriving DecidableEq, Repr

namespace Side

def all : List Side := [.buy, .sell]

theorem mem_all (s : Side) : s ∈ all := by cases s <;> simp [all]

def name : Side → String
  | .buy => "Buy"
  | .sell => "Sell"

def ofName? (s : String) : Option Side := all.find? (·.name = s)

end Side

/-- How an order is to be filled. -/
inductive OrderKind where
  | market
  | limit
  | stopMarket
  | stopLimit
  /-- Closes a position. -/
  | close
  deriving DecidableEq, Repr

namespace OrderKind

def all : List OrderKind := [.market, .limit, .stopMarket, .stopLimit, .close]

theorem mem_all (k : OrderKind) : k ∈ all := by cases k <;> simp [all]

def name : OrderKind → String
  | .market => "Market"
  | .limit => "Limit"
  | .stopMarket => "StopMarket"
  | .stopLimit => "StopLimit"
  | .close => "Close"

def ofName? (s : String) : Option OrderKind := all.find? (·.name = s)

end OrderKind

/-- How far an order came when it was sent. -/
inductive OrderStatus where
  /-- Sent and not yet acknowledged. -/
  | submitted
  | accepted
  | rejected
  /-- Never reached the venue. -/
  | failed
  deriving DecidableEq, Repr

namespace OrderStatus

def all : List OrderStatus := [.submitted, .accepted, .rejected, .failed]

theorem mem_all (s : OrderStatus) : s ∈ all := by cases s <;> simp [all]

def name : OrderStatus → String
  | .submitted => "Submitted"
  | .accepted => "Accepted"
  | .rejected => "Rejected"
  | .failed => "Failed"

def ofName? (s : String) : Option OrderStatus := all.find? (·.name = s)

end OrderStatus

/-- What became of an order. -/
inductive EventKind where
  | fill
  | partialFill
  | reject
  | cancel
  /-- Every position was flattened. -/
  | emergencyStop
  deriving DecidableEq, Repr

namespace EventKind

def all : List EventKind := [.fill, .partialFill, .reject, .cancel, .emergencyStop]

theorem mem_all (k : EventKind) : k ∈ all := by cases k <;> simp [all]

def name : EventKind → String
  | .fill => "Fill"
  | .partialFill => "PartialFill"
  | .reject => "Reject"
  | .cancel => "Cancel"
  | .emergencyStop => "EmergencyStop"

def ofName? (s : String) : Option EventKind := all.find? (·.name = s)

end EventKind

/-! ## Bodies -/

/-- An instruction to trade, as it came in. -/
@[ext] structure Signal where
  /-- Chosen by the sender; no two signals have the same. -/
  dedupeKey : String
  correlationId : Uuid
  symbol : String
  side : Side
  price : Option Decimal
  quantity : Decimal
  /-- The request exactly as it was received. -/
  request : Bytes
  sourceAddress : Option String
  authenticated : Bool
  deriving DecidableEq

/-- What a model thought about a signal. -/
@[ext] structure Deliberation where
  correlationId : Uuid
  model : String
  /-- Canonical JSON text. -/
  reasoning : String
  confidence : Decimal
  elapsedMillis : UInt64
  timedOut : Bool
  deriving DecidableEq

/-- An order as it was sent. -/
@[ext] structure Execution where
  correlationId : Uuid
  kind : OrderKind
  symbol : String
  side : Side
  quantity : Decimal
  price : Option Decimal
  externalOrderId : Option String
  status : OrderStatus
  deriving DecidableEq

/-- One event in the life of an order. -/
@[ext] structure OrderEvent where
  executionId : Uuid
  kind : EventKind
  fillQuantity : Option Decimal
  fillPrice : Option Decimal
  equity : Option Decimal
  /-- Canonical JSON text. -/
  closedPositions : Option String
  rejectionDetail : Option String
  externalErrorCode : Option String
  deriving DecidableEq

/-- The body of a record. -/
inductive Body where
  | signal (s : Signal)
  | deliberation (d : Deliberation)
  | execution (e : Execution)
  | event (e : OrderEvent)
  deriving DecidableEq

namespace Body

/-- The table a body belongs to. -/
def table : Body → Table
  | .signal _ => .signals
  | .deliberation _ => .deliberations
  | .execution _ => .orderExecutions
  | .event _ => .orderEvents

/-- The identifier a record is found by: the execution's for an event, the signal's otherwise. -/
def linkId : Body → Uuid
  | .signal s => s.correlationId
  | .deliberation d => d.correlationId
  | .execution e => e.correlationId
  | .event e => e.executionId

end Body

end TradeLedger

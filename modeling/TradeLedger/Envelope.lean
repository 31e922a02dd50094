/-
Envelopes: all that a digest covers of a record, and its canonical octets.
-/
import TradeLedger.Body
import TradeLedger.Codec
import TradeLedger.Instant

namespace TradeLedger

/-! ## Codecs of the bodies -/

namespace Signal

def codec : Codec Signal :=
  (Codec.text.both <| Codec.uuid.both <| Codec.text.both <| (Codec.oneOf Side.all).both <|
    Codec.decimal.optional.both <| Codec.decimal.both <| Codec.octets.both <|
    Codec.text.optional.both Codec.bool).via
  (fun (dedupeKey, correlationId, symbol, side, price, quantity, request, sourceAddress,
      authenticated) =>
    { dedupeKey, correlationId, symbol, side, price, quantity, request, sourceAddress,
      authenticated })
  (fun s => (s.dedupeKey, s.correlationId, s.symbol, s.side, s.price, s.quantity, s.request,
    s.sourceAddress, s.authenticated))

end Signal

namespace Deliberation

def codec : Codec Deliberation :=
  (Codec.uuid.both <| Codec.text.both <| Codec.text.both <| Codec.decimal.both <|
    Codec.unsigned.both Codec.bool).via
  (fun (correlationId, model, reasoning, confidence, elapsedMillis, timedOut) =>
    { correlationId, model, reasoning, confidence, elapsedMillis, timedOut })
  (fun d => (d.correlationId, d.model, d.reasoning, d.confidence, d.elapsedMillis, d.timedOut))

end Deliberation

namespace Execution

def codec : Codec Execution :=
  (Codec.uuid.both <| (Codec.oneOf OrderKind.all).both <| Codec.text.both <|
    (Codec.oneOf Side.all).both <| Codec.decimal.both <| Codec.decimal.optional.both <|
    Codec.text.optional.both (Codec.oneOf OrderStatus.all)).via
  (fun (correlationId, kind, symbol, side, quantity, price, externalOrderId, status) =>
    { correlationId, kind, symbol, side, quantity, price, externalOrderId, status })
  (fun e => (e.correlationId, e.kind, e.symbol, e.side, e.quantity, e.price, e.externalOrderId,
    e.status))

end Execution

namespace OrderEvent

def codec : Codec OrderEvent :=
  (Codec.uuid.both <| (Codec.oneOf EventKind.all).both <| Codec.decimal.optional.both <|
    Codec.decimal.optional.both <| Codec.decimal.optional.both <| Codec.text.optional.both <|
    Codec.text.optional.both Codec.text.optional).via
  (fun (executionId, kind, fillQuantity, fillPrice, equity, closedPositions, rejectionDetail,
      externalErrorCode) =>
    { executionId, kind, fillQuantity, fillPrice, equity, closedPositions, rejectionDetail,
      externalErrorCode })
  (fun e => (e.executionId, e.kind, e.fillQuantity, e.fillPrice, e.equity, e.closedPositions,
    e.rejectionDetail, e.externalErrorCode))

end OrderEvent

namespace Table

def codec : Codec Table := Codec.oneOf all

end Table

namespace Body

/-- The fields of a body, without the tag that says which kind it is. -/
def writeFields : Body → Bytes
  | .signal s => Signal.codec.write s
  | .deliberation d => Deliberation.codec.write d
  | .execution e => Execution.codec.write e
  | .event e => OrderEvent.codec.write e

/-- Reads the fields of the kind of body that belongs to a table. -/
def readFields (t : Table) (b : Bytes) : Except Damage (Body × Bytes) :=
  match t with
  | .signals => do
    let (s, rest) ← Signal.codec.read b
    return (.signal s, rest)
  | .deliberations => do
    let (d, rest) ← Deliberation.codec.read b
    return (.deliberation d, rest)
  | .orderExecutions => do
    let (e, rest) ← Execution.codec.read b
    return (.execution e, rest)
  | .orderEvents => do
    let (e, rest) ← OrderEvent.codec.read b
    return (.event e, rest)

/-- A body follows the tag of the table it belongs to. -/
def codec : Codec Body where
  write b := Table.codec.write b.table ++ writeFields b
  read b := do
    let (t, rest) ← Table.codec.read b
    readFields t rest

end Body

/-! ## Envelopes -/

/-- All of a record that its digest covers. -/
@[ext] structure Envelope where
  table : Table
  /-- Counted from one. -/
  position : UInt64
  recordId : Uuid
  linkId : Uuid
  createdAt : Instant
  body : Body
  deriving DecidableEq

namespace Envelope

def codec : Codec Envelope :=
  (Table.codec.both <| Codec.unsigned.both <| Codec.uuid.both <| Codec.uuid.both <|
    Codec.signed.both Body.codec).via
  (fun (table, position, recordId, linkId, createdAt, body) =>
    { table, position, recordId, linkId, createdAt, body })
  (fun e => (e.table, e.position, e.recordId, e.linkId, e.createdAt, e.body))

/-- The canonical octets. -/
def encode (e : Envelope) : Bytes := codec.write e

/-- Reads an envelope. Octets after it do not matter. -/
def decode (b : Bytes) : Except Damage Envelope := do
  let (e, _) ← codec.read b
  return e

end Envelope

end TradeLedger

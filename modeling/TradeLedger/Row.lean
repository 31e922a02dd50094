/-
Rows as a store holds them, and records as they read from their rows. The columns of a row repeat
what its content says; only the content is covered by the digest.
-/
import TradeLedger.Envelope
import TradeLedger.Digest

namespace TradeLedger

/-- A row of a store. -/
@[ext] structure Row where
  table : Table
  /-- Counted from one. -/
  position : UInt64
  recordId : Uuid
  linkId : Uuid
  /-- The canonical octets of an envelope. -/
  content : Bytes
  /-- The digest of the digest before it and the content. -/
  digest : Digest
  deriving DecidableEq

/-- A committed record. -/
@[ext] structure Record where
  table : Table
  position : UInt64
  recordId : Uuid
  /-- As a calendar shows it. -/
  createdAt : Instant
  digest : Digest
  body : Body
  deriving DecidableEq

namespace Row

/-- The record of a row. All but the digest is taken from the content, never from the columns. -/
def record (r : Row) : Except Damage Record := do
  let e ← Envelope.decode r.content
  return {
    table := e.table
    position := e.position
    recordId := e.recordId
    createdAt := Instant.calendar e.createdAt
    digest := r.digest
    body := e.body }

end Row

end TradeLedger

/-
What a store of rows can do. It can only append and read: there is no way to change a row or to take
one away. Each operation may fail, and may change the store whether it fails or not.
-/
import TradeLedger.Failure
import TradeLedger.Row

namespace TradeLedger

/-- Something that keeps rows. -/
class Store (σ : Type) where
  /-- Appends a row under a permit for a table. The row is answered as it was stored. -/
  append : (permit : Table) → Row → σ → Except Failure Row × σ
  /-- The row at a position counted from one. -/
  get : Table → (position : UInt64) → σ → Except Failure (Option Row) × σ
  /-- All rows of a table, in order. -/
  scan : Table → σ → Except Failure (List Row) × σ
  /-- The last row of a table. -/
  tail : Table → σ → Except Failure (Option Row) × σ
  /-- Where the rows of a table with this link are, in order. -/
  positionsByLink : Table → Uuid → σ → Except Failure (List UInt64) × σ

end TradeLedger

/-
Chains of digests: each covers the one before it and a content, and the first covers a digest made
from the name of the table.
-/
import TradeLedger.Digest.Sha256
import TradeLedger.Instant
import TradeLedger.Table

namespace TradeLedger.Chain

/-- Set apart from every other use of a table's name. -/
def domain : String := "audit-ledger/genesis/v1/"

/-- What stands before the first record of a table. -/
def genesis (t : Table) : Digest := Sha256.hash (Bytes.ofText (domain ++ t.name))

/-- The digest that links a content to the digest before it. -/
def link (previous : Digest) (content : Bytes) : Digest := Sha256.hash (previous.bytes ++ content)

/-- The end of a chain, which the next record has to follow. -/
@[ext] structure Tail where
  /-- How many records the chain has. -/
  position : Nat
  digest : Digest
  /-- When the last record was created. -/
  createdAt : Instant
  deriving DecidableEq

namespace Tail

/-- The end of a chain without records. -/
def empty (t : Table) : Tail := ⟨0, genesis t, Instant.earliest⟩

end Tail

end TradeLedger.Chain

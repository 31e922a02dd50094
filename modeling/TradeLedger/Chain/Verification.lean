/-
Verification of a table's rows. Every row is held against the digest stored with the row before it,
so that a row that was tampered with is blamed itself, and not those that follow.
-/
import TradeLedger.Chain
import TradeLedger.Row

namespace TradeLedger.Chain

/-! ## Breaks -/

/-- What is wrong with a row. -/
inductive Flaw where
  | position
  | digest
  | content
  /-- The identifiers beside the content are not those in it. -/
  | columns
  /-- Created before the row in front of it. -/
  | time
  deriving DecidableEq, Repr

namespace Flaw

def text : Flaw → String
  | .position => "position mismatch"
  | .digest => "hash mismatch"
  | .content => "undecodable content"
  | .columns => "row column mismatch"
  | .time => "timestamp regression"

end Flaw

/-- The first row that is not as it should be. -/
structure Break where
  table : Table
  /-- Where the row stands, counted from one. -/
  position : Nat
  recordId : Uuid
  /-- The digest that the row should have. -/
  expected : Digest
  /-- The digest that it has. -/
  actual : Digest
  flaw : Flaw
  deriving DecidableEq

/-- What verification says about the rows of a table. -/
inductive Verification where
  /-- Every row follows the one before it, and the chain ends here. -/
  | intact (table : Table) (tail : Tail)
  | broken (b : Break)
  deriving DecidableEq

namespace Verification

def break? : Verification → Option Break
  | .intact .. => none
  | .broken b => some b

def isIntact (v : Verification) : Bool := v.break?.isNone

end Verification

/-! ## Checking -/

/-- Holds a row against the chain that it has to follow: the end of the longer chain, or the first
thing that is wrong with the row. -/
def follow (t : Table) (before : Tail) (r : Row) : Except Flaw Tail := do
  let position := before.position + 1
  if r.table ≠ t ∨ r.position.toNat ≠ position then throw .position
  if link before.digest r.content ≠ r.digest then throw .digest
  let .ok e := Envelope.decode r.content | throw .content
  if e.table ≠ t ∨ e.position.toNat ≠ position then throw .position
  if e.recordId ≠ r.recordId ∨ e.linkId ≠ r.linkId then throw .columns
  if e.createdAt < before.createdAt then throw .time
  return ⟨position, r.digest, e.createdAt⟩

/-- Holds rows against the chain that they have to follow. -/
def verifyFrom (t : Table) (before : Tail) : List Row → Verification
  | [] => .intact t before
  | r :: rest =>
    match follow t before r with
    | .ok after => verifyFrom t after rest
    | .error flaw =>
      .broken {
        table := t
        position := before.position + 1
        recordId := r.recordId
        expected := link before.digest r.content
        actual := r.digest
        flaw := flaw }

/-- Verifies all rows of a table, in the order of their positions. -/
def verify (t : Table) (rows : List Row) : Verification := verifyFrom t (.empty t) rows

end TradeLedger.Chain

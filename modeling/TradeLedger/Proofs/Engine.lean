/-
What the engine puts behind the end of a chain follows it, and moves the end as verification would:
a body that fits is read back from its row, but for the sign of a zero, and its time is never before
that of the row in front of it.
-/
import TradeLedger.Engine
import TradeLedger.Proofs.Chain.Linked
import TradeLedger.Proofs.Codec.Envelope

namespace TradeLedger.Engine

/-! ## What is stamped -/

section Follow

variable (before : Chain.Tail) (now : Instant) (recordId : Uuid) (body : Body)

@[simp] theorem table_follow : (follow before now recordId body).row.table = body.table := rfl

@[simp] theorem content_follow :
    (follow before now recordId body).row.content = (envelope before now recordId body).encode := rfl

theorem position_follow (hp : before.position + 1 < 2 ^ 64) :
    (follow before now recordId body).row.position.toNat = before.position + 1 :=
  UInt64.toNat_ofNat_of_lt hp

variable {before} {body}

/-- A stamped row follows the end that it was stamped for. -/
theorem follows_follow_of_fits (hf : body.Fits) (hp : before.position + 1 < 2 ^ 64) :
    Chain.Follows body.table before (follow before now recordId body).row
      (envelope before now recordId body).unsignedZeros where
  table := rfl
  position := position_follow before now recordId body hp
  digest := rfl
  content := Envelope.decode_encode_of_fits hf
  contentTable := rfl
  contentPosition := position_follow before now recordId body hp
  recordId := rfl
  linkId := rfl
  time := by
    show before.createdAt ≤ if now ≤ before.createdAt then before.createdAt else now
    rw [Int64.le_iff_toInt_le]
    split
    · exact le_refl _
    · rename_i h
      rw [Int64.le_iff_toInt_le] at h
      omega

/-- A row with a body that can be stored says the body itself. -/
theorem follows_follow (hs : body.Storable) (hp : before.position + 1 < 2 ^ 64) :
    Chain.Follows body.table before (follow before now recordId body).row (envelope before now recordId body) := by
  have h := follows_follow_of_fits now recordId hs.fits hp
  rwa [Envelope.unsignedZeros_eq_self_iff.2 hs.signed] at h

/-- The engine and verification agree about where a stamped row ends the chain. -/
theorem tail_follow (hp : before.position + 1 < 2 ^ 64) :
    (follow before now recordId body).tail =
      before.after (follow before now recordId body).row (envelope before now recordId body) := by
  rw [Stamp.tail, position_follow before now recordId body hp]
  rfl

end Follow

end TradeLedger.Engine

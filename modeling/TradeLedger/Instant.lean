/-
Points in time, in microseconds since the start of 1970, and those of them that a calendar can show.
-/

namespace TradeLedger

/-- Microseconds since the start of 1970, UTC. -/
abbrev Instant := Int64

namespace Instant

/-- Before every other instant or equal to it. -/
def earliest : Instant := Int64.minValue

/-- From the first microsecond of a calendar with years of six digits to its last. -/
def inCalendar (t : Instant) : Bool :=
  (-8334601228800000000 : Int64) ≤ t && t ≤ (8210266876799999999 : Int64)

/-- The instant as a calendar shows it: one it cannot hold shows as the start of 1970. -/
def calendar (t : Instant) : Instant := if inCalendar t then t else 0

end Instant

end TradeLedger

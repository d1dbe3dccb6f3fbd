/-
  Coverage.Source.Revision

  Which content of a source is meant: its identity and a token that changes with the
  content. A file's token is its modification time, a resource's the digest of its bytes.
-/

import Coverage.Source.Identity

namespace Coverage

/-- The token that tells one content of a source from another. -/
inductive Freshness where
  /-- Seconds since the epoch, rounded down, and the microseconds after them. -/
  | modified (seconds : Int) (micros : Nat)
  /-- A digest in hexadecimal. -/
  | digest (hex : String)
  deriving DecidableEq, Repr

namespace Freshness

/-- Nanoseconds in a microsecond. -/
def nanosPerMicro : Nat := 1000

/-- Microseconds in a second. -/
def microsPerSecond : Nat := 1000000

/-- Nanoseconds in a second. -/
def nanosPerSecond : Nat := 1000000000

/-- The most seconds that a time can be away from the epoch. -/
def secondsLimit : Nat := 0x7FFFFFFFFFFFFFFF

/-- The token of a modification time in nanoseconds since the epoch. The distance from the epoch
    is split into seconds and microseconds, and what is less than a microsecond is cut off. A time
    before the epoch is counted from the second below it, so its microseconds are not negative. -/
def ofNanos (nanos : Int) : Freshness :=
  let seconds : Int := (min (nanos.natAbs / nanosPerSecond) secondsLimit : Nat)
  let micros := nanos.natAbs % nanosPerSecond / nanosPerMicro
  if 0 ≤ nanos then .modified seconds micros
  else if micros = 0 then .modified (-seconds) 0
  else .modified (-seconds - 1) (microsPerSecond - micros)

end Freshness

/-- A source with the token of one of its contents. -/
structure Revision where
  id : SourceId
  freshness : Freshness
  deriving DecidableEq, Repr

end Coverage

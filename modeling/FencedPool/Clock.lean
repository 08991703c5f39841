import FencedPool.Duration

/-!
# Clock — a clock that is moved by hand

Sessions are kept alive by heartbeats, so the store must know how much time has passed.  Time is
counted from the start of the clock, and it moves only forward.

This file defines `Instant` and `Clock`.
-/

namespace FencedPool

/-- A point in time, in nanoseconds since the clock was started. -/
structure Instant where
  nanos : Nat := 0
  deriving DecidableEq, Repr, Inhabited

def Instant.after (t : Instant) (d : Duration) : Instant := ⟨t.nanos + d.toNanos⟩

/-- The time from one point to another, zero when the other comes first. -/
def Instant.until (earlier later : Instant) : Duration :=
  Duration.ofNanos (later.nanos - earlier.nanos)

/-- A clock that is moved by hand. -/
structure Clock where
  now : Instant := {}
  deriving DecidableEq, Repr, Inhabited

namespace Clock

def advance (c : Clock) (d : Duration) : Clock := ⟨c.now.after d⟩

/-- The time that has passed since a point, zero for a point ahead. -/
def elapsedSince (c : Clock) (earlier : Instant) : Duration := earlier.until c.now

end Clock

end FencedPool

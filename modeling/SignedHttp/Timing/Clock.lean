/-!
# Clocks

Time is a number of milliseconds since an arbitrary start. It orders events and
measures durations. The date is that of the start plus the whole seconds that have
passed since, so the two never disagree about how much time went by.

Where a moment and a duration are added, both are numbers of nanoseconds, and the
duration is a signed word of 64 bits.

## Main definitions

* `Clock`: The date of the start, and the time since.
* `Clock.unixTime`: The date, in whole seconds.
* `Clock.nanoseconds`: The moment, in nanoseconds since the start.
-/

namespace SignedHttp

/-- The present: the date at the start and the milliseconds since. -/
structure Clock where
  epoch : Int
  elapsed : Nat := 0
  deriving DecidableEq, Repr

namespace Clock

/-- The date in seconds since 1970. -/
def unixTime (c : Clock) : Int := c.epoch + (c.elapsed / 1000 : Nat)

/-- The moment in nanoseconds since the start, which is how durations are added to it. -/
def nanoseconds (c : Clock) : Nat := c.elapsed * 1000000

/-- The clock some milliseconds later. -/
def advance (ms : Nat) (c : Clock) : Clock := { c with elapsed := c.elapsed + ms }

end Clock

end SignedHttp

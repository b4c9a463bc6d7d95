import AddonWatch.Retry

namespace AddonWatch

/-- The retry delays and the other lengths of time, the number of partitions that supervision works
with, and the last moment that its clock can tell, counted from its start. -/
structure Settings where
  resyncInterval : Span := Span.ofSeconds 600
  retry : RetryPolicy := ⟨Span.ofSeconds 1, Span.ofSeconds 300⟩
  cancelGrace : Span := Span.ofSeconds 30
  callTimeout : Span := Span.ofSeconds 30
  workers : Nat := 4
  lastMoment : Span := ⟨9223372036854775807999999999⟩
deriving DecidableEq, Repr, Inhabited

namespace Settings

/-- What is said of a moment that the clock cannot tell. -/
def overflow : String :=
  "overflow when adding duration to instant"

/-- Whether the clock can tell the moment that lies so long behind one of its milliseconds. -/
def reaches (settings : Settings) (now : Nat) (span : Span) : Bool :=
  (span.after now).nanos ≤ settings.lastMoment.nanos

/-- Why no resync can be set from that moment on, if none can: the first one would be due beyond the
last moment, or no time would lie between two of them. -/
def resyncFault? (settings : Settings) (now : Nat) : Option String :=
  if !settings.reaches now settings.resyncInterval then some overflow
  else if settings.resyncInterval.nanos = 0 then some "\x60period\x60 must be non-zero."
  else none

/-- By how much a resync may be late without putting off those behind it. -/
def tolerance : Span :=
  Span.ofMillis 5

/-- When the resync behind the one of `tick` is due, which has just come: an interval behind that,
or behind now if it came too late. -/
def nextTick (settings : Settings) (tick : Span) (now : Nat) : Span :=
  if tolerance.nanos + tick.nanos < 1000000 * now then settings.resyncInterval.after now
  else ⟨tick.nanos + settings.resyncInterval.nanos⟩

end Settings

end AddonWatch

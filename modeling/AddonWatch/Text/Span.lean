import AddonWatch.Double

namespace AddonWatch

/-- A length of time in whole nanoseconds. -/
structure Span where
  nanos : Nat
deriving DecidableEq, Repr, Inhabited

namespace Span

def ofMillis (ms : Nat) : Span := ⟨ms * 1000000⟩

def ofSeconds (s : Nat) : Span := ⟨s * 1000000000⟩

def ofMicros (us : Nat) : Span := ⟨us * 1000⟩

def micros (span : Span) : Nat :=
  span.nanos / 1000

/-- The milliseconds that the span fills or begins to fill. -/
def millis (span : Span) : Nat :=
  (span.nanos + 999999) / 1000000

/-- The moment so long behind a millisecond of a clock, counted from its start. -/
def after (span : Span) (now : Nat) : Span :=
  ⟨1000000 * now + span.nanos⟩

/-- The whole number in double precision that is nearest to a whole number. -/
def toDouble (n : Nat) : Nat :=
  (Double.round n 1).floor

/-- The nanoseconds in double precision: the seconds, their nanoseconds and the sum with the rest
are rounded one after the other. -/
def inDouble (span : Span) : Nat :=
  toDouble (toDouble (toDouble (span.nanos / 1000000000) * 1000000000) +
    span.nanos % 1000000000)

/-- What 64 bits hold of a number. -/
def saturate (n : Nat) : Nat :=
  min n 18446744073709551615

/-- The span of so many nanoseconds in double precision. The seconds come from a division in double
precision, the rest from the nanoseconds as far as 64 bits hold them. -/
def ofDouble (nanos : Nat) : Span :=
  ⟨saturate (Double.round nanos 1000000000).floor * 1000000000 + saturate nanos % 1000000000⟩

/-- The digits of `part / 10 ^ places` behind the point, without trailing zeros. -/
def fraction (part places : Nat) : String :=
  let digits := Nat.toDigits 10 part
  let padded := List.replicate (places - digits.length) '0' ++ digits
  let kept := (padded.reverse.dropWhile (· = '0')).reverse
  if kept.isEmpty then "" else String.ofList ('.' :: kept)

/-- A length of `nanos` counted in units of `10 ^ places` nanoseconds. -/
def inUnit (nanos places : Nat) (unit : String) : String :=
  toString (nanos / Nat.pow 10 places) ++
    (if places = 0 then "" else fraction (nanos % Nat.pow 10 places) places) ++ unit

/-- The text of a span has the largest unit that fits into it and the exact fraction. -/
def text (span : Span) : String :=
  if 1000000000 ≤ span.nanos then inUnit span.nanos 9 "s"
  else if 1000000 ≤ span.nanos then inUnit span.nanos 6 "ms"
  else if 1000 ≤ span.nanos then inUnit span.nanos 3 "µs"
  else inUnit span.nanos 0 "ns"

end Span

end AddonWatch

import AddonWatch.Text.Span

namespace AddonWatch

/-- Retry delays that double from `initial` up to `max` and never give up. -/
structure RetryPolicy where
  initial : Span
  max : Span
deriving DecidableEq, Repr, Inhabited

/-- The delay that a run of failures has reached. -/
structure Backoff where
  current : Span
deriving DecidableEq, Repr, Inhabited

namespace RetryPolicy

def start (policy : RetryPolicy) : Backoff :=
  ⟨policy.initial⟩

/-- The delay behind this one, where nanoseconds are counted in double precision: from half of the
greatest delay on comes the greatest, before that the double. -/
def after (policy : RetryPolicy) (delay : Span) : Span :=
  if policy.max.inDouble ≤ 2 * delay.inDouble then policy.max
  else Span.ofDouble (2 * delay.inDouble)

/-- The delay to wait now, to the precision of doubles, and the state behind it. -/
def next (policy : RetryPolicy) (backoff : Backoff) : Span × Backoff :=
  (Span.ofDouble backoff.current.inDouble, ⟨policy.after backoff.current⟩)

/-- The delay behind `failures` failures in a row, without stepping through them, for delays whose
nanoseconds double precision holds. -/
def delayAfter (policy : RetryPolicy) (failures : Nat) : Span :=
  if failures = 0 then policy.initial
  else ⟨min policy.max.nanos (policy.initial.nanos * Nat.pow 2 failures)⟩

end RetryPolicy

/-- A failure that waits, or a success that forgets the failures before it. -/
inductive RetryCall where
  | next
  | reset
deriving DecidableEq, Repr, Inhabited

/-- The delays that a sequence of calls is given. -/
def RetryPolicy.delays (policy : RetryPolicy) : Backoff → List RetryCall → List Span
  | _, [] => []
  | backoff, .next :: rest =>
    let (delay, backoff) := policy.next backoff
    delay :: policy.delays backoff rest
  | _, .reset :: rest => policy.delays policy.start rest

end AddonWatch

import AddonWatch.Proofs.Delays
import Mathlib.Data.List.Induction

namespace AddonWatch

/-- The failures since the last success, at the end of those calls. -/
def RetryCall.streak (calls : List RetryCall) : Nat :=
  (calls.reverse.takeWhile (· = .next)).length

namespace RetryCall

variable {calls : List RetryCall}

theorem streak_next : streak (calls ++ [.next]) = streak calls + 1 := by
  simp [streak]

theorem streak_reset : streak (calls ++ [.reset]) = 0 := by
  simp [streak]

/-- Without a success the failures only become more. -/
theorem streak_append {more : List RetryCall} (h : .reset ∉ more) :
    streak (calls ++ more) = streak calls + more.length := by
  induction more using List.reverseRecOn with
  | nil => simp
  | append_singleton more call ih =>
    have hmore : .reset ∉ more := fun hm => h (List.mem_append_left _ hm)
    have hcall : call ≠ .reset := fun hc => h (by simp [hc])
    cases call with
    | reset => exact absurd rfl hcall
    | next =>
      rw [← List.append_assoc, streak_next, ih hmore, List.length_append, List.length_singleton]
      omega

end RetryCall

namespace RetryPolicy

variable {policy : RetryPolicy} {backoff : Backoff} {calls more : List RetryCall}

/-- Where a backoff is left by a sequence of calls. -/
def leaves (policy : RetryPolicy) (backoff : Backoff) : List RetryCall → Backoff
  | [] => backoff
  | .next :: rest => policy.leaves (policy.next backoff).2 rest
  | .reset :: rest => policy.leaves policy.start rest

theorem leaves_append :
    policy.leaves backoff (calls ++ more) = policy.leaves (policy.leaves backoff calls) more := by
  induction calls generalizing backoff with
  | nil => rfl
  | cons call rest ih => cases call <;> exact ih

theorem delays_append : policy.delays backoff (calls ++ more) =
    policy.delays backoff calls ++ policy.delays (policy.leaves backoff calls) more := by
  induction calls generalizing backoff with
  | nil => rfl
  | cons call rest ih =>
    cases call with
    | next => exact congrArg ((policy.next backoff).1 :: ·) ih
    | reset => exact ih

/-- Every failure is given a delay. -/
theorem length_delays : (policy.delays backoff calls).length = calls.count .next := by
  induction calls generalizing backoff with
  | nil => rfl
  | cons call rest ih =>
    cases call with
    | next =>
      have hrest : (policy.delays (policy.next backoff).2 rest).length = rest.count .next := ih
      rw [delays, List.length_cons, hrest, List.count_cons_self]
    | reset =>
      have hrest : (policy.delays policy.start rest).length = rest.count .next := ih
      rw [delays, hrest, List.count_cons_of_ne (by decide)]

/-- Only the failures since the last success count. -/
theorem leaves_eq_reached :
    policy.leaves policy.start calls = policy.reached (RetryCall.streak calls) := by
  induction calls using List.reverseRecOn with
  | nil => rfl
  | append_singleton calls call ih =>
    rw [leaves_append, ih]
    cases call with
    | next =>
      rw [RetryCall.streak_next]
      rfl
    | reset =>
      rw [RetryCall.streak_reset]
      rfl

/-- The delay of a failure stands at the place of that failure among all of them. -/
theorem delay_of_streak (policy : RetryPolicy) {before after : List RetryCall}
    (h : calls = before ++ .next :: after) :
    (policy.delays policy.start calls)[before.count .next]? =
      some (policy.delay (RetryCall.streak before)) := by
  subst h
  have hlength : (policy.delays policy.start before).length = before.count .next := length_delays
  rw [delays_append, leaves_eq_reached, List.getElem?_append_right (Nat.le_of_eq hlength), hlength,
    Nat.sub_self]
  rfl

/-- Each delay is that of a failure. -/
theorem exists_failure_of_mem {delay : Span} (h : delay ∈ policy.delays policy.start calls) :
    ∃ before after, calls = before ++ .next :: after ∧
      delay = policy.delay (RetryCall.streak before) := by
  induction calls using List.reverseRecOn with
  | nil => cases h
  | append_singleton calls call ih =>
    rw [delays_append, List.mem_append] at h
    rcases h with hbefore | hlast
    · obtain ⟨before, after, hcalls, hdelay⟩ := ih hbefore
      exact ⟨before, after ++ [call], by simp [hcalls], hdelay⟩
    · cases call with
      | next =>
        rw [leaves_eq_reached] at hlast
        exact ⟨calls, [], rfl, List.mem_singleton.mp hlast⟩
      | reset => cases hlast

theorem nanos_delayAfter (policy : RetryPolicy) (failures : Nat) :
    (policy.delayAfter failures).nanos =
      if failures = 0 then policy.initial.nanos
      else min policy.max.nanos (policy.initial.nanos * 2 ^ failures) := by
  unfold delayAfter
  split <;> rfl

theorem delayAfter_le_max (h : policy.initial.nanos ≤ policy.max.nanos) (failures : Nat) :
    (policy.delayAfter failures).nanos ≤ policy.max.nanos := by
  rw [nanos_delayAfter]
  split
  · exact h
  · exact Nat.min_le_left _ _

theorem delayAfter_mono (h : policy.initial.nanos ≤ policy.max.nanos) {few many : Nat}
    (hle : few ≤ many) : (policy.delayAfter few).nanos ≤ (policy.delayAfter many).nanos := by
  have hpow : policy.initial.nanos * 2 ^ few ≤ policy.initial.nanos * 2 ^ many :=
    Nat.mul_le_mul_left _ (Nat.pow_le_pow_right Nat.zero_lt_two hle)
  have hone : policy.initial.nanos ≤ policy.initial.nanos * 2 ^ many :=
    Nat.le_mul_of_pos_right _ (Nat.two_pow_pos many)
  rw [nanos_delayAfter, nanos_delayAfter]
  split <;> split <;> omega

/-- Whatever the initial and the greatest delay, and whatever failures and successes come: each
failure is given a delay, the first one since a success the initial delay, and one behind `k` others
the initial delay doubled `k` times, but no more than the greatest. So with an initial delay that is
not beyond the greatest none is, and between two successes no delay is shorter than one before. -/
theorem delays_double (h : policy.IsExact) (calls : List RetryCall) :
    (policy.delays policy.start calls).length = calls.count .next ∧
    (∀ before after, calls = before ++ .next :: after → ∃ delay,
      (policy.delays policy.start calls)[before.count .next]? = some delay ∧
        delay.nanos = if RetryCall.streak before = 0 then policy.initial.nanos
          else min policy.max.nanos (policy.initial.nanos * 2 ^ RetryCall.streak before)) ∧
    (policy.initial.nanos ≤ policy.max.nanos →
      (∀ delay ∈ policy.delays policy.start calls, delay.nanos ≤ policy.max.nanos) ∧
      ∀ before between after, calls = before ++ .next :: (between ++ .next :: after) →
        .reset ∉ between → ∃ first second,
          (policy.delays policy.start calls)[before.count .next]? = some first ∧
          (policy.delays policy.start calls)[(before ++ .next :: between).count .next]? =
            some second ∧ first.nanos ≤ second.nanos) := by
  refine ⟨length_delays, fun before after hcalls => ?_, fun hle => ⟨fun delay hm => ?_, ?_⟩⟩
  · have hat := delay_of_streak policy hcalls
    rw [h.delay_eq] at hat
    exact ⟨_, hat, nanos_delayAfter policy _⟩
  · obtain ⟨before, after, -, rfl⟩ := exists_failure_of_mem hm
    rw [h.delay_eq]
    exact delayAfter_le_max hle _
  · intro before between after hcalls hnone
    have hfirst := delay_of_streak policy hcalls
    have hsplit : calls = (before ++ .next :: between) ++ .next :: after := by simp [hcalls]
    have hsecond := delay_of_streak policy hsplit
    have hstreak : RetryCall.streak (before ++ .next :: between) =
        RetryCall.streak before + (between.length + 1) :=
      RetryCall.streak_append (by simpa using hnone)
    rw [h.delay_eq] at hfirst hsecond
    refine ⟨_, _, hfirst, hsecond, delayAfter_mono hle ?_⟩
    omega

/-- From three microseconds on the delays double up to twenty-five, and begin anew after a
success. -/
theorem delays_double_microseconds : ∃ policy : RetryPolicy, policy.IsExact ∧
    policy.initial.nanos ≤ policy.max.nanos ∧
    (policy.delays policy.start
      [.next, .next, .next, .next, .next, .reset, .next]).map Span.micros =
        [3, 6, 12, 24, 25, 3] ∧
    ∃ delay, (policy.delays policy.start
      [.next, .next, .next, .next, .next, .reset, .next])[4]? = some delay ∧
        delay.nanos = min 25000 (3000 * 2 ^ 4) := by
  have hexact : (⟨Span.ofMicros 3, Span.ofMicros 25⟩ : RetryPolicy).IsExact :=
    ⟨by decide, by decide⟩
  obtain ⟨-, heach, -⟩ :=
    delays_double hexact [.next, .next, .next, .next, .next, .reset, .next]
  obtain ⟨delay, hat, hdelay⟩ := heach [.next, .next, .next, .next] [.reset, .next] rfl
  exact ⟨_, hexact, by decide, by decide +kernel, delay, hat, hdelay⟩

end RetryPolicy

end AddonWatch

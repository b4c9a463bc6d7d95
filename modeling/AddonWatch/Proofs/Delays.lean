import AddonWatch.Retry
import Mathlib.Tactic.Ring

namespace AddonWatch

namespace Double

/-- The nearest whole number is off by at most one half. -/
theorem nearestWhole_bounds (num : Nat) {den : Nat} (hden : 0 < den) :
    2 * (nearestWhole num den * den) ≤ 2 * num + den ∧
      2 * num ≤ 2 * (nearestWhole num den * den) + den := by
  have hdiv := Nat.div_add_mod num den
  have hmod := Nat.mod_lt num hden
  rw [Nat.mul_comm] at hdiv
  unfold nearestWhole
  dsimp only
  split
  next h =>
    have hsucc := Nat.succ_mul (num / den) den
    rw [Nat.succ_eq_add_one] at hsucc
    omega
  next h => omega

theorem floor_of_nonpos (mantissa k : Nat) :
    (⟨mantissa, -(k : Int)⟩ : Double).floor = mantissa / 2 ^ k := by
  simp [floor, numerator, denominator]

/-- Half of a mantissa of one bit too many, at twice the exponent, is the same number. -/
theorem floor_normal (mantissa k : Nat) :
    (normal ⟨mantissa, -(k : Int)⟩).floor = mantissa / 2 ^ k := by
  unfold normal
  dsimp only
  split
  next h =>
    subst h
    cases k with
    | zero => rfl
    | succ k =>
      have hexp : -((k + 1 : Nat) : Int) + 1 = -(k : Int) := by omega
      rw [hexp, floor_of_nonpos]
      exact (Nat.mul_div_mul_right (2 ^ 52) (2 ^ k) Nat.zero_lt_two).symm
  next => exact floor_of_nonpos mantissa k

theorem exponentOf_le (num den : Nat) :
    exponentOf num den ≤ max leastExponent ((num.log2 : Int) - den.log2 - 52) := by
  unfold exponentOf
  dsimp only
  split <;> omega

/-- With as many bits behind the point as the divisor has, no rounding reaches the next whole
number. -/
theorem nearestWhole_scaled (num : Nat) {den k : Nat} (hden : 0 < den) (hk : den < 2 ^ (k + 1)) :
    nearestWhole (num * 2 ^ k) den / 2 ^ k = num / den := by
  obtain ⟨hover, hunder⟩ := nearestWhole_bounds (num * 2 ^ k) hden
  generalize nearestWhole (num * 2 ^ k) den = mantissa at hover hunder
  have hpos : 0 < 2 ^ k := Nat.two_pow_pos k
  have hmod := Nat.mod_lt num hden
  have hdiv : num * 2 ^ k = num / den * 2 ^ k * den + num % den * 2 ^ k := by
    conv_lhs => rw [← Nat.div_add_mod num den]
    ring
  have hrest : num % den * 2 ^ k + 2 ^ k ≤ den * 2 ^ k := by
    rw [← Nat.succ_mul]
    exact Nat.mul_le_mul_right _ hmod
  have hlow : num / den * 2 ^ k ≤ mantissa := by
    by_contra hlt
    have hle : (mantissa + 1) * den ≤ num / den * 2 ^ k * den :=
      Nat.mul_le_mul_right den (by omega)
    rw [Nat.succ_mul] at hle
    omega
  have hhigh : mantissa < (num / den + 1) * 2 ^ k := by
    by_contra hle
    have hge : (num / den + 1) * 2 ^ k * den ≤ mantissa * den :=
      Nat.mul_le_mul_right den (by omega)
    have hsplit : (num / den + 1) * 2 ^ k * den = num / den * 2 ^ k * den + den * 2 ^ k := by ring
    rw [Nat.pow_succ] at hk
    omega
  exact Nat.div_eq_of_lt_le hlow hhigh

/-- Rounding keeps the whole part of a quotient, as long as double precision holds the dividend. -/
theorem floor_round {num den : Nat} (hden : 0 < den) (hleast : den.log2 ≤ 1074)
    (hnum : num < 2 ^ 53) : (round num den).floor = num / den := by
  unfold round
  split
  next h =>
    subst h
    simp [zero, floor, numerator]
  next h =>
    have hle := exponentOf_le num den
    have hbits : num.log2 < 53 := (Nat.log2_lt h).mpr hnum
    unfold leastExponent at hle
    obtain ⟨k, hexp, hk⟩ : ∃ k : Nat, exponentOf num den = -(k : Int) ∧ den.log2 ≤ k :=
      ⟨(-exponentOf num den).toNat, by omega, by omega⟩
    have hfew : den < 2 ^ (k + 1) :=
      Nat.lt_of_lt_of_le Nat.lt_log2_self (Nat.pow_le_pow_right Nat.zero_lt_two (by omega))
    dsimp only
    rw [hexp, floor_normal]
    simpa using nearestWhole_scaled num hden hfew

end Double

namespace Span

theorem toDouble_eq {n : Nat} (h : n < 2 ^ 53) : toDouble n = n := by
  unfold toDouble
  rw [Double.floor_round Nat.one_pos (by decide) h, Nat.div_one]

theorem inDouble_eq {span : Span} (h : span.nanos < 2 ^ 53) : span.inDouble = span.nanos := by
  unfold inDouble
  rw [toDouble_eq (show span.nanos / 1000000000 < 2 ^ 53 by omega),
    toDouble_eq (show span.nanos / 1000000000 * 1000000000 < 2 ^ 53 by omega),
    Nat.div_add_mod', toDouble_eq h]

theorem ofDouble_eq {n : Nat} (h : n < 2 ^ 53) : ofDouble n = ⟨n⟩ := by
  unfold ofDouble
  rw [Double.floor_round (by decide) (by decide) h]
  unfold saturate
  congr 1
  omega

end Span

namespace RetryPolicy

/-- Double precision holds the nanoseconds of both delays. -/
structure IsExact (policy : RetryPolicy) : Prop where
  initial : policy.initial.nanos < 2 ^ 53
  max : policy.max.nanos < 2 ^ 53

/-- Where so many failures in a row take the backoff. -/
def reached (policy : RetryPolicy) : Nat → Backoff
  | 0 => policy.start
  | failures + 1 => (policy.next (policy.reached failures)).2

/-- The wait behind one more failure after so many in a row. -/
def delay (policy : RetryPolicy) (failures : Nat) : Span :=
  (policy.next (policy.reached failures)).1

theorem next_reached (policy : RetryPolicy) (failures : Nat) :
    policy.next (policy.reached failures) =
      (policy.delay failures, policy.reached (failures + 1)) := rfl

theorem IsExact.delayAfter_lt {policy : RetryPolicy} (h : policy.IsExact) (failures : Nat) :
    (policy.delayAfter failures).nanos < 2 ^ 53 := by
  unfold delayAfter
  split
  · exact h.initial
  · exact Nat.lt_of_le_of_lt (Nat.min_le_left _ _) h.max

/-- From any delay on, the next one is the double, and at most the greatest. -/
theorem IsExact.after_eq {policy : RetryPolicy} (h : policy.IsExact) {delay : Span}
    (hd : delay.nanos < 2 ^ 53) :
    policy.after delay = ⟨min policy.max.nanos (2 * delay.nanos)⟩ := by
  have hm := h.max
  unfold after
  rw [Span.inDouble_eq hm, Span.inDouble_eq hd]
  split
  next hle => rw [Nat.min_eq_left hle]
  next hlt => rw [Span.ofDouble_eq (by omega), Nat.min_eq_right (by omega)]

/-- The backoff doubles the delay with every failure, from the initial to the greatest one. -/
theorem IsExact.reached_eq {policy : RetryPolicy} (h : policy.IsExact) (failures : Nat) :
    policy.reached failures = ⟨policy.delayAfter failures⟩ := by
  induction failures with
  | zero => rfl
  | succ failures ih =>
    have hstep : (policy.reached (failures + 1)).current =
        policy.after (policy.delayAfter failures) := by rw [reached, next, ih]
    rw [h.after_eq (h.delayAfter_lt failures)] at hstep
    have hnext : policy.reached (failures + 1) =
        ⟨⟨min policy.max.nanos (2 * (policy.delayAfter failures).nanos)⟩⟩ := congrArg _ hstep
    rw [hnext]
    unfold delayAfter
    rw [if_neg (Nat.succ_ne_zero failures), Nat.pow_eq, Nat.pow_eq, Nat.pow_succ]
    split
    next hz =>
      subst hz
      rw [Nat.pow_zero, Nat.one_mul, Nat.mul_comm]
    next =>
      have hm := Nat.mul_assoc policy.initial.nanos (2 ^ failures) 2
      dsimp only
      rw [← hm]
      congr 2
      omega

theorem IsExact.delay_eq {policy : RetryPolicy} (h : policy.IsExact) (failures : Nat) :
    policy.delay failures = policy.delayAfter failures := by
  have hlt := h.delayAfter_lt failures
  unfold delay next
  rw [h.reached_eq, Span.inDouble_eq hlt, Span.ofDouble_eq hlt]

end RetryPolicy

end AddonWatch

namespace AddonWatch

/-- A number in double precision that is not negative, `mantissa * 2 ^ exponent` with at most 53
bits in the mantissa. An exponent beyond the greatest one stands for infinity. -/
structure Double where
  mantissa : Nat
  exponent : Int
deriving DecidableEq, Repr, Inhabited

namespace Double

def leastExponent : Int := -1074

def greatestExponent : Int := 971

def zero : Double := ⟨0, leastExponent⟩

def isFinite (d : Double) : Bool :=
  d.exponent ≤ greatestExponent

/-- The number is this over `denominator`. -/
def numerator (d : Double) : Nat :=
  d.mantissa * Nat.pow 2 d.exponent.toNat

def denominator (d : Double) : Nat :=
  Nat.pow 2 (-d.exponent).toNat

def floor (d : Double) : Nat :=
  d.numerator / d.denominator

/-- The whole number nearest to `num / den`, of two equally near the even one. -/
def nearestWhole (num den : Nat) : Nat :=
  let whole := num / den
  let twice := 2 * (num % den)
  if den < twice ∨ (twice = den ∧ whole % 2 = 1) then whole + 1 else whole

/-- The exponent with which `num / den` takes 53 bits, unless that is less than the least one. -/
def exponentOf (num den : Nat) : Int :=
  let log : Int := (num.log2 : Int) - den.log2
  let reaches := den * Nat.pow 2 log.toNat ≤ num * Nat.pow 2 (-log).toNat
  max leastExponent (if reaches then log - 52 else log - 53)

/-- A mantissa of one bit too many is a power of two and can do with less. -/
def normal (d : Double) : Double :=
  if d.mantissa = Nat.pow 2 53 then ⟨Nat.pow 2 52, d.exponent + 1⟩ else d

/-- The number nearest to `num / den`, of two equally near the one with an even mantissa. -/
def round (num den : Nat) : Double :=
  if num = 0 then zero
  else
    let exponent := exponentOf num den
    normal ⟨nearestWhole (num * Nat.pow 2 (-exponent).toNat) (den * Nat.pow 2 exponent.toNat),
      exponent⟩

def mul (a b : Double) : Double :=
  round (a.numerator * b.numerator) (a.denominator * b.denominator)

def div (a b : Double) : Double :=
  round (a.numerator * b.denominator) (a.denominator * b.numerator)

def powerOfTen (power : Nat) : Double :=
  round (Nat.pow 10 power) 1

end Double

end AddonWatch

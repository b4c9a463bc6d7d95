import AddonWatch.Double

namespace AddonWatch

/-- The number `digits * 10 ^ power`. -/
structure Decimal where
  digits : Nat
  power : Int
deriving DecidableEq, Repr, Inhabited

namespace Decimal

/-- The greatest whole number of 64 bits. -/
def greatest : Nat := 18446744073709551615

/-- Puts digits behind a number as long as it stays within 64 bits, and gives those left over. -/
def absorb : Nat → List Char → Nat × List Char
  | n, [] => (n, [])
  | n, c :: rest =>
    let next := n * 10 + (c.toNat - '0'.toNat)
    if next ≤ greatest then absorb next rest else (n, c :: rest)

/-- The decimal of the digits before and behind the point and the power of ten behind them. Digits
that 64 bits do not hold count as zeros. -/
def ofParts (whole fraction : List Char) (power : Int) : Decimal :=
  let (n, left) := absorb 0 whole
  let (n, dropped) := absorb n fraction
  ⟨n, power + left.length - (fraction.length - dropped.length : Nat)⟩

/-- The greatest power of ten that is taken or divided by at once. -/
def greatestPower : Nat := 308

/-- Divides by a power of ten, step by step if it is too great for one. -/
def divide (d : Double) (power : Nat) : Double :=
  if power ≤ greatestPower then d.div (Double.powerOfTen power)
  else if d.mantissa = 0 then d
  else divide (d.div (Double.powerOfTen greatestPower)) (power - greatestPower)
termination_by power
decreasing_by simp only [greatestPower] at *; omega

/-- The digits and the power of ten are rounded each for itself, and then their product or
quotient; nothing if that is infinite. -/
def toDouble? (decimal : Decimal) : Option Double :=
  let d := Double.round decimal.digits 1
  if decimal.power < 0 then some (divide d (-decimal.power).toNat)
  else if decimal.power ≤ greatestPower then
    let product := d.mul (Double.powerOfTen decimal.power.toNat)
    if product.isFinite then some product else none
  else if d.mantissa = 0 then some d
  else none

def round (decimal : Decimal) : Double :=
  Double.round (decimal.digits * Nat.pow 10 decimal.power.toNat)
    (Nat.pow 10 (-decimal.power).toNat)

end Decimal

namespace Double

/-- How many digits the number has before the point; none or less than none for zeros behind it. -/
def places (d : Double) : Int :=
  if 0 < d.floor then ((Nat.toDigits 10 d.floor).length : Int)
  else
    let zeros := (List.range 330).find? fun j => d.denominator ≤ d.numerator * Nat.pow 10 j
    1 - (zeros.getD 0 : Int)

/-- The decimals of so many digits next to the number, from below and above. -/
def neighbours (d : Double) (count : Nat) : List Decimal :=
  let power := d.places - count
  let below := d.numerator * Nat.pow 10 (-power).toNat / (d.denominator * Nat.pow 10 power.toNat)
  [⟨below, power⟩, ⟨below + 1, power⟩]

/-- Whether `below` is nearer to the number than the decimal above it. -/
def isNearerBelow (d : Double) (below : Decimal) : Bool :=
  2 * d.numerator * Nat.pow 10 (-below.power).toNat ≤
    (2 * below.digits + 1) * d.denominator * Nat.pow 10 below.power.toNat

/-- The decimal of so many digits that reads back as the number, the nearer one of two. -/
def decimalOf? (d : Double) (count : Nat) : Option Decimal :=
  match (d.neighbours count).filter fun decimal => decimal.round = d with
  | [below, above] => some (if d.isNearerBelow below then below else above)
  | [decimal] => some decimal
  | _ => none

/-- The decimal with the fewest digits that reads back as the number; seventeen are always
enough. -/
def shortest (d : Double) : Decimal :=
  ((List.range' 1 17).findSome? d.decimalOf?).getD ⟨0, 0⟩

end Double

namespace Decimal

def zeros (count : Int) : List Char :=
  List.replicate count.toNat '0'

/-- The digits and the power of ten as text. Numbers from a hundred-thousandth up to ten to the
sixteenth stand with a point, all others with one digit before it and an exponent. -/
def text (decimal : Decimal) : String :=
  let written := Nat.toDigits 10 decimal.digits
  let digits := (written.reverse.dropWhile (· = '0')).reverse
  let places : Int := written.length + decimal.power
  let missing : Int := places - digits.length
  String.ofList (
    if digits.isEmpty then ['0', '.', '0']
    else if 0 ≤ missing ∧ places ≤ 16 then digits ++ zeros missing ++ ['.', '0']
    else if 0 < places ∧ places ≤ 16 then
      digits.take places.toNat ++ ['.'] ++ digits.drop places.toNat
    else if -5 < places ∧ places ≤ 0 then ['0', '.'] ++ zeros (-places) ++ digits
    else digits.take 1 ++ (if digits.length = 1 then [] else '.' :: digits.drop 1) ++
      'e' :: (toString (places - 1)).toList)

end Decimal

/-- The text of a number in double precision. -/
def Double.text (d : Double) : String :=
  d.shortest.text

end AddonWatch

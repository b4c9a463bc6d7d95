import AddonWatch.Text.Utf8

namespace AddonWatch.Percent

def hexDigit (n : Nat) : Char :=
  if n < 10 then Char.ofNat ('0'.toNat + n) else Char.ofNat ('A'.toNat + (n - 10))

/-- The value of a hexadecimal digit, given as its byte. -/
def hexValue? (byte : Nat) : Option Nat :=
  if 48 ≤ byte ∧ byte ≤ 57 then some (byte - 48)
  else if 65 ≤ byte ∧ byte ≤ 70 then some (byte - 55)
  else if 97 ≤ byte ∧ byte ≤ 102 then some (byte - 87)
  else none

/-- Letters, digits and four marks stand for themselves. -/
def isPlain (byte : Nat) : Bool :=
  (Char.ofNat byte).isAlphanum || byte = 42 || byte = 45 || byte = 46 || byte = 95

/-- A blank is written as a plus sign, any other byte that does not stand for itself as a percent
sign and two digits. -/
def encodeByte (byte : Nat) : List Char :=
  if byte = 32 then ['+']
  else if byte < 128 ∧ isPlain byte then [Char.ofNat byte]
  else ['%', hexDigit (byte / 16), hexDigit (byte % 16)]

def encode (s : String) : String :=
  String.ofList ((Utf8.bytes s).flatMap encodeByte)

/-- The bytes that encoded ones stand for; a percent sign without two digits stands for itself. -/
def decodeBytes : List Nat → List Nat
  | 37 :: a :: b :: rest =>
    match hexValue? a, hexValue? b with
    | some high, some low => (high * 16 + low) :: decodeBytes rest
    | _, _ => 37 :: decodeBytes (a :: b :: rest)
  | 43 :: rest => 32 :: decodeBytes rest
  | byte :: rest => byte :: decodeBytes rest
  | [] => []

def decode (s : String) : String :=
  Utf8.decode (decodeBytes (Utf8.bytes s))

end AddonWatch.Percent

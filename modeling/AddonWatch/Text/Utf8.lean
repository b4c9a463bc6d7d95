namespace AddonWatch

namespace Utf8

def bytes (s : String) : List Nat :=
  s.toUTF8.toList.map UInt8.toNat

def replacement : Char := Char.ofNat 0xFFFD

/-- What has been read of a character: its bits so far, how many bytes are still to come, and the
bounds of the next one. -/
structure Started where
  bits : Nat
  missing : Nat
  low : Nat
  high : Nat

/-- What a byte tells that is the first of several. -/
def started? (lead : Nat) : Option Started :=
  if 0xC2 ≤ lead ∧ lead ≤ 0xDF then some ⟨lead % 32, 1, 0x80, 0xBF⟩
  else if lead = 0xE0 then some ⟨0, 2, 0xA0, 0xBF⟩
  else if lead = 0xED then some ⟨13, 2, 0x80, 0x9F⟩
  else if 0xE1 ≤ lead ∧ lead ≤ 0xEF then some ⟨lead % 16, 2, 0x80, 0xBF⟩
  else if lead = 0xF0 then some ⟨0, 3, 0x90, 0xBF⟩
  else if 0xF1 ≤ lead ∧ lead ≤ 0xF3 then some ⟨lead % 8, 3, 0x80, 0xBF⟩
  else if lead = 0xF4 then some ⟨4, 3, 0x80, 0x8F⟩
  else none

/-- Begins with a byte: a character of its own, the start of one, or neither. -/
def start (byte : Nat) : Option Char × Option Started :=
  if byte < 0x80 then (some (Char.ofNat byte), none)
  else match started? byte with
    | some started => (none, some started)
    | none => (some replacement, none)

/-- The characters of the bytes; each longest run that starts a character and does not complete
it, and each byte that cannot start one, counts as one replacement character. -/
def decodeFrom : Option Started → List Nat → List Char
  | none, [] => []
  | some _, [] => [replacement]
  | none, byte :: rest =>
    let (found, started) := start byte
    found.toList ++ decodeFrom started rest
  | some s, byte :: rest =>
    if s.low ≤ byte ∧ byte ≤ s.high then
      let bits := s.bits * 64 + byte % 64
      if s.missing ≤ 1 then Char.ofNat bits :: decodeFrom none rest
      else decodeFrom (some ⟨bits, s.missing - 1, 0x80, 0xBF⟩) rest
    else
      let (found, started) := start byte
      replacement :: (found.toList ++ decodeFrom started rest)

def decode (bytes : List Nat) : String :=
  String.ofList (decodeFrom none bytes)

end Utf8

end AddonWatch

import AddonWatch.Json.Decoding
import AddonWatch.Text.Decimal

namespace AddonWatch.Json

namespace Reader

def isBlank (c : Char) : Bool :=
  c = ' ' || c = '\n' || c = '\t' || c = '\r'

def skipBlank (s : List Char) : List Char :=
  s.dropWhile isBlank

def hexDigit? (c : Char) : Option Nat :=
  if c.isDigit then some (c.toNat - '0'.toNat)
  else if 'a' ≤ c ∧ c ≤ 'f' then some (c.toNat - 'a'.toNat + 10)
  else if 'A' ≤ c ∧ c ≤ 'F' then some (c.toNat - 'A'.toNat + 10)
  else none

def hexUnit? (a b c d : Char) : Option Nat := do
  let a ← hexDigit? a
  let b ← hexDigit? b
  let c ← hexDigit? c
  let d ← hexDigit? d
  return ((a * 16 + b) * 16 + c) * 16 + d

def shortEscape? (c : Char) : Option Nat :=
  match c with
  | '"' => some 34
  | '\\' => some 92
  | '/' => some 47
  | 'b' => some 8
  | 'f' => some 12
  | 'n' => some 10
  | 'r' => some 13
  | 't' => some 9
  | _ => none

/-- A string literal behind its opening quote: a code point for each plain character and a code unit
for each numeric escape, whether its closing quote is there, and what follows it. -/
structure Literal where
  units : List Nat
  closed : Bool
  rest : List Char

def Literal.behind (unit : Nat) (found : Literal) : Literal :=
  { found with units := unit :: found.units }

def Literal.unclosed : Literal :=
  ⟨[], false, []⟩

/-- Whether the text has room for the four bytes of a numeric escape. -/
def hasRoom (s : List Char) : Bool :=
  4 ≤ s.foldr (fun c size => c.utf8Size + size) 0

/-- A string literal, unless something in it is out of place. -/
def literal? : List Char → Option Literal
  | [] => some .unclosed
  | '"' :: rest => some ⟨[], true, rest⟩
  | ['\\'] => some .unclosed
  | '\\' :: 'u' :: a :: b :: c :: d :: rest => do
    let unit ← hexUnit? a b c d
    return (← literal? rest).behind unit
  | '\\' :: 'u' :: rest => if hasRoom rest then none else some .unclosed
  | '\\' :: c :: rest => do
    let unit ← shortEscape? c
    return (← literal? rest).behind unit
  | c :: rest => if c.toNat < 32 then none else (literal? rest).map (·.behind c.toNat)

/-- A code unit that begins a surrogate pair. -/
def isHigh (unit : Nat) : Bool :=
  0xD800 ≤ unit && unit < 0xDC00

/-- A code unit that ends a surrogate pair. -/
def isLow (unit : Nat) : Bool :=
  0xDC00 ≤ unit && unit < 0xE000

/-- The characters that the numbers stand for; half of a surrogate pair stands for none. -/
def joinPairs : List Nat → Option (List Char)
  | [] => some []
  | high :: low :: rest =>
    if isHigh high then
      if isLow low then
        (joinPairs rest).map (Char.ofNat (0x10000 + (high - 0xD800) * 0x400 + (low - 0xDC00)) :: ·)
      else none
    else if isLow high then none
    else (joinPairs (low :: rest)).map (Char.ofNat high :: ·)
  | [unit] => if isHigh unit || isLow unit then none else some [Char.ofNat unit]

namespace Literal

/-- The text of a literal; where the closing quote is missing, the second half of a pair may be
missing too. -/
def text? (found : Literal) : Option String :=
  let units := match found.closed, found.units.getLast? with
    | false, some unit => if isHigh unit then found.units.dropLast else found.units
    | _, _ => found.units
  (joinPairs units).map String.ofList

/-- The document that the literal is. -/
def document (found : Literal) : Json :=
  match found.closed, found.text? with
  | true, some text => .str text
  | true, none => .garbled []
  | false, some _ => .cut .string
  | false, none => .garbled [.cut .string]

end Literal

def natOfDigits (digits : List Char) : Nat :=
  digits.foldl (fun n c => n * 10 + (c.toNat - '0'.toNat)) 0

/-- A run of at least one digit. -/
def digits (s : List Char) : Except Flaw (List Char × List Char) :=
  match s.span Char.isDigit with
  | ([], []) => .error .brokenOff
  | ([], _) => .error .misplaced
  | found => .ok found

/-- The digits behind a point, if there is one. -/
def fractionPart (s : List Char) : Except Flaw (Option (List Char) × List Char) :=
  match s with
  | '.' :: rest => (digits rest).map fun (found, rest) => (some found, rest)
  | _ => .ok (none, s)

/-- Digits with a sign before them or without one. -/
def signedDigits (s : List Char) : Except Flaw (Int × List Char) :=
  match s with
  | '-' :: rest => (digits rest).map fun (found, rest) => (-(natOfDigits found : Int), rest)
  | '+' :: rest => (digits rest).map fun (found, rest) => (natOfDigits found, rest)
  | _ => (digits s).map fun (found, rest) => (natOfDigits found, rest)

/-- The power of ten behind an `e`, if there is one. -/
def exponentPart (s : List Char) : Except Flaw (Option Int × List Char) :=
  match s with
  | e :: rest =>
    if e = 'e' ∨ e = 'E' then (signedDigits rest).map fun (power, rest) => (some power, rest)
    else .ok (none, s)
  | [] => .ok (none, s)

/-- Whole numbers that are read as such: those that 64 bits hold, with a sign or without. -/
def isWhole (n : Int) : Bool :=
  -9223372036854775808 ≤ n && n ≤ 18446744073709551615

/-- The number with these parts. `-0` is not whole, as zero has no sign there. -/
def numberOf (negative : Bool) (whole : List Char) (fraction : Option (List Char))
    (power : Option Int) : Json :=
  let size : Int := natOfDigits whole
  let value := if negative then -size else size
  if fraction.isNone ∧ power.isNone ∧ isWhole value ∧ ¬(negative ∧ value = 0) then .int value
  else
    match (Decimal.ofParts whole (fraction.getD []) (power.getD 0)).toDouble? with
    | some size => .real negative size
    | none => .garbled []

/-- A number literal has no needless zero at its beginning. -/
def number (s : List Char) : Except Flaw (Json × List Char) := do
  let (negative, s) := match s with
    | '-' :: rest => (true, rest)
    | _ => (false, s)
  let (whole, s) ← digits s
  if whole.length ≠ 1 ∧ whole.head? = some '0' then throw .misplaced
  let (fraction, s) ← fractionPart s
  let (power, s) ← exponentPart s
  return (numberOf negative whole fraction power, s)

def keyword (word : List Char) (value : Json) (s : List Char) : Except Flaw (Json × List Char) :=
  if word.isPrefixOf s then .ok (value, s.drop word.length)
  else .error (if s.isPrefixOf word then .brokenOff else .misplaced)

/-- What breaks off is a document that ends at that place. -/
def cutAt (place : Cut) : Except Flaw (Json × List Char) → Option (Json × List Char)
  | .ok found => some found
  | .error .brokenOff => some (.cut place, [])
  | .error .misplaced => none

/-- Arrays and objects inside one another are read up to this level. -/
def deepest : Nat := 127

/-- An array or an object with what stands inside it, at a level of nesting. -/
def atLevel (level : Nat) (inside : List Json) (document : Json) : Json :=
  if level ≤ deepest then document else .garbled inside

/-- An object whose keys are all text. -/
def object (members : List (Option String × Json)) : Json :=
  match members.mapM fun m => m.1.map (·, m.2) with
  | some members => .obj members
  | none => .garbled (members.map (·.2))

mutual

/-- A value at the start of the characters, at a level of nesting, unless something in it is out of
place. -/
def value : Nat → Nat → List Char → Option (Json × List Char)
  | 0, _, _ => none
  | fuel + 1, level, s =>
    match skipBlank s with
    | [] => some (.cut .value, [])
    | '"' :: rest => (literal? rest).map fun found => (found.document, found.rest)
    | '[' :: rest =>
      match skipBlank rest with
      | ']' :: rest => some (atLevel level [] (.arr []), rest)
      | rest => (items fuel (level + 1) rest).map fun (found, rest) =>
        (atLevel level found (.arr found), rest)
    | '\x7b' :: rest =>
      match skipBlank rest with
      | '\x7d' :: rest => some (atLevel level [] (.obj []), rest)
      | rest => (members fuel (level + 1) rest).map fun (found, rest) =>
        (atLevel level (found.map (·.2)) (object found), rest)
    | 'n' :: rest => cutAt .keyword (keyword "ull".toList .null rest)
    | 't' :: rest => cutAt .keyword (keyword "rue".toList (.bool true) rest)
    | 'f' :: rest => cutAt .keyword (keyword "alse".toList (.bool false) rest)
    | s => cutAt .number (number s)

/-- The items of an array behind its opening bracket, at least one. -/
def items : Nat → Nat → List Char → Option (List Json × List Char)
  | 0, _, _ => none
  | fuel + 1, level, s => do
    let (item, rest) ← value fuel level s
    match skipBlank rest with
    | ',' :: rest =>
      let (more, rest) ← items fuel level rest
      return (item :: more, rest)
    | ']' :: rest => return ([item], rest)
    | [] => return ([item, .cut .behind], [])
    | _ => none

/-- The members of an object behind its opening brace, at least one. A key that is not there has no
name. -/
def members : Nat → Nat → List Char → Option (List (Option String × Json) × List Char)
  | 0, _, _ => none
  | fuel + 1, level, s =>
    match skipBlank s with
    | [] => some ([(some "", .cut .key)], [])
    | '"' :: rest => do
      let key ← literal? rest
      if !key.closed then return ([(key.text?.map fun _ => "", .cut .key)], [])
      match skipBlank key.rest with
      | [] => return ([(key.text?, .cut .value)], [])
      | ':' :: rest =>
        let (item, rest) ← value fuel level rest
        match skipBlank rest with
        | ',' :: rest =>
          let (more, rest) ← members fuel level rest
          return ((key.text?, item) :: more, rest)
        | '\x7d' :: rest => return ([(key.text?, item)], rest)
        | [] => return ([(key.text?, item), (some "", .cut .behind)], [])
        | _ => none
      | _ => none
    | rest =>
      match value fuel level rest with
      | some (.cut _, _) => some ([(some "", .cut .bareKey)], [])
      | _ => none

end

/-- One value and nothing but blanks around it. Each call consumes a character or is the one call
on the characters that are left, so twice their number is fuel enough. -/
def document (s : List Char) : Option Json := do
  let (found, rest) ← value (2 * s.length + 2) 1 s
  if (skipBlank rest).isEmpty then some found else none

end Reader

/-- The document of a text, be it cut short, unless something in the text is out of place. -/
def read (s : String) : Option Json :=
  Reader.document s.toList

/-- What a text holds, if it is what it should be. -/
def readAs {α : Type} (decode : Json → Except Flaw α) (s : String) : Option α :=
  (read s).bind fun document => (decode document).toOption

end AddonWatch.Json

import AddonWatch.Text.Percent

namespace AddonWatch.Cluster

/-- Where a request goes: a path and the parameters behind it. -/
structure Address where
  path : String
  parameters : List (String × String)
deriving DecidableEq, Repr, Inhabited

namespace Address

/-- An address takes no more bytes than this. -/
def maxSize : Nat := 65534

/-- Control characters, blanks and angle brackets are no part of an address; characters beyond
ASCII are. -/
def isVisible (c : Char) : Bool :=
  0x20 < c.toNat && c.toNat ≠ 0x7f && c ≠ '<' && c ≠ '>'

/-- A path has no backquote. -/
def fitsPath (c : Char) : Bool :=
  isVisible c && c ≠ '\x60'

/-- Among parameters a backquote is allowed, a double quote is not. -/
def fitsParameters (c : Char) : Bool :=
  isVisible c && c ≠ '"'

/-- The parts between the separators, at least one. -/
def splitAt (separator : Char) : List Char → List (List Char)
  | [] => [[]]
  | c :: rest =>
    if c = separator then [] :: splitAt separator rest
    else match splitAt separator rest with
      | [] => [[c]]
      | part :: parts => (c :: part) :: parts

def decodePart (part : List Char) : String × String :=
  let (name, value) := part.span (· ≠ '=')
  (Percent.decode (String.ofList name), Percent.decode (String.ofList (value.drop 1)))

/-- The parameters between ampersands, where empty parts do not count. -/
def decodeParameters (s : List Char) : List (String × String) :=
  ((splitAt '&' s).filter fun part => !part.isEmpty).map decodePart

def encodeParameter (parameter : String × String) : String :=
  Percent.encode parameter.1 ++ "=" ++ Percent.encode parameter.2

/-- The text of a path with parameters behind it. -/
def written (path : String) (parameters : List (String × String)) : String :=
  path ++ "?" ++ String.join (parameters.map fun p => "&" ++ encodeParameter p)

/-- Reads an address. A question mark ends the path, wherever it stands, and a number sign ends
all of it. -/
def ofText? (s : String) : Option Address :=
  let visible := s.toList.takeWhile (· ≠ '#')
  let (path, behind) := visible.span (· ≠ '?')
  let parameters := behind.drop 1
  if s.utf8ByteSize ≤ maxSize ∧ path.all fitsPath ∧ parameters.all fitsParameters then
    some ⟨String.ofList path, decodeParameters parameters⟩
  else none

end Address

end AddonWatch.Cluster

import AddonWatch.Double

namespace AddonWatch

/-- Where a text ends before its document does: where a value was to come, within a keyword, a
number or a string, where a key was to come or within one, within a keyword or a number that stands
in place of a key, or behind an item or a member. -/
inductive Cut where
  | value
  | keyword
  | number
  | string
  | key
  | bareKey
  | behind
deriving DecidableEq, Repr, Inhabited

/-- A JSON document. Members keep their order and their repetitions, and the whole numbers that 64
bits hold are told apart from every other number. What can be passed over but not read is `garbled`,
with what stands inside it: a string that holds half of a surrogate pair and so is no text, an
object with such a key, a number beyond the range of double precision, and what is nested too
deeply. In the document of a text that ends too early, `cut` stands where it does, as the last item
of its array or with the last member of its object. -/
inductive Json where
  | null
  | bool (value : Bool)
  | int (value : Int)
  | real (negative : Bool) (size : Double)
  | str (text : String)
  | arr (items : List Json)
  | obj (members : List (String × Json))
  | garbled (inside : List Json)
  | cut (place : Cut)
deriving Inhabited

namespace Json

/-- The last member of that name, as a later member replaces an earlier one. -/
def lastMember (name : String) (members : List (String × Json)) : Option Json :=
  (members.reverse.find? fun m => m.1 = name).map (·.2)

/-- The member of that name, if there is exactly one. -/
def onlyMember (name : String) (members : List (String × Json)) : Option Json :=
  match members.filter fun m => m.1 = name with
  | [m] => some m.2
  | _ => none

def get (document : Json) (name : String) : Option Json :=
  match document with
  | .obj members => lastMember name members
  | _ => none

def null? : Json → Option Unit
  | .null => some ()
  | _ => none

def text? : Json → Option String
  | .str s => some s
  | _ => none

def bool? : Json → Option Bool
  | .bool b => some b
  | _ => none

def int? : Json → Option Int
  | .int n => some n
  | _ => none

def items? : Json → Option (List Json)
  | .arr items => some items
  | _ => none

mutual

/-- Where the text of the document ends too early, if it does. -/
def cut? : Json → Option Cut
  | .cut place => some place
  | .arr items => firstCut items
  | .obj members => firstCutOfMembers members
  | .garbled inside => firstCut inside
  | _ => none

def firstCut : List Json → Option Cut
  | [] => none
  | item :: rest => (cut? item).or (firstCut rest)

def firstCutOfMembers : List (String × Json) → Option Cut
  | [] => none
  | (_, value) :: rest => (cut? value).or (firstCutOfMembers rest)

end

mutual

/-- Whether the document can be read throughout, as far as its text goes. -/
def isReadable : Json → Bool
  | .garbled _ => false
  | .cut .bareKey => false
  | .arr items => areReadable items
  | .obj members => areMembersReadable members
  | _ => true

def areReadable : List Json → Bool
  | [] => true
  | item :: rest => item.isReadable && areReadable rest

def areMembersReadable : List (String × Json) → Bool
  | [] => true
  | (_, value) :: rest => value.isReadable && areMembersReadable rest

end

end Json

end AddonWatch

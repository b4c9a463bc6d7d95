import AddonWatch.Json.Value

namespace AddonWatch

/-- Why a document is not what it should be: its text ends before that can be told, or something in
it is out of place. Whatever is out of place comes before the end of the text. -/
inductive Flaw where
  | brokenOff
  | misplaced
deriving DecidableEq, Repr, Inhabited

namespace Json

/-- What is wrong with a document where another one was to come. -/
def refuse {α : Type} : Json → Except Flaw α
  | .cut .bareKey => .error .misplaced
  | .cut _ => .error .brokenOff
  | _ => .error .misplaced

def expect {α : Type} (read : Json → Option α) (document : Json) : Except Flaw α :=
  match read document with
  | some a => .ok a
  | none => document.refuse

def text : Json → Except Flaw String :=
  expect text?

/-- A part that nobody asks for may be anything, but it has an end. A number that the text ends in
is not waited for. -/
def pass (document : Json) : Except Flaw Unit :=
  match document.cut? with
  | none => .ok ()
  | some .number => .error .misplaced
  | some .bareKey => .error .misplaced
  | some _ => .error .brokenOff

/-- A part that is kept as it is can be read throughout. -/
def keep (document : Json) : Except Flaw Json :=
  if !document.isReadable then .error .misplaced
  else if document.cut?.isSome then .error .brokenOff
  else .ok document

/-- An explicit null is as good as an absent value. -/
def optional {α : Type} (read : Json → Except Flaw α) : Json → Except Flaw (Option α)
  | .null => .ok none
  | document => (read document).map some

def list {α : Type} (read : Json → Except Flaw α) : Json → Except Flaw (List α)
  | .arr items => items.mapM read
  | document => document.refuse

/-- A map with its keys in order; a later entry replaces an earlier one of the same key. -/
def putEntry (key value : String) : List (String × String) → List (String × String)
  | [] => [(key, value)]
  | (k, v) :: rest =>
    if key < k then (key, value) :: (k, v) :: rest
    else if key = k then (key, value) :: rest
    else (k, v) :: putEntry key value rest

def textMap : Json → Except Flaw (List (String × String))
  | .obj members =>
    members.foldlM (fun found m => m.2.text.map fun value => putEntry m.1 value found) []
  | document => document.refuse

/-- Takes over the members of an object one by one. -/
def takeMembers {β : Type} (put : β → String × Json → Except Flaw β) (start : β) :
    Json → Except Flaw β
  | .obj members => members.foldlM put start
  | document => document.refuse

/-- What is left of an array or an object is nothing but its end. -/
def ends : List Json → Except Flaw Unit
  | [] => .ok ()
  | [.cut .behind] => .error .brokenOff
  | _ => .error .misplaced

/-- Whether one of the names is given to several members. -/
def hasRepeated (names : List String) (members : List (String × Json)) : Bool :=
  names.any fun name => 1 < members.countP fun m => m.1 = name

/-- Takes over the named fields one by one: members of an object, each given at most once, or the
items of an array in the order of the names. Gives the names that were there. -/
def takeFields {β : Type} (names : List String) (put : β → String × Json → Except Flaw β)
    (start : β) : Json → Except Flaw (β × List String)
  | .obj members => do
    if hasRepeated names members then throw .misplaced
    return (← members.foldlM put start, members.map (·.1))
  | .arr items => do
    let found ← (names.zip items).foldlM put start
    ends (items.drop names.length)
    return (found, names.take items.length)
  | document => document.refuse

/-- Fields that are not given must be among those that can do without. -/
def require (names given : List String) : Except Flaw Unit :=
  if names.all given.contains then .ok () else .error .misplaced

end Json

end AddonWatch

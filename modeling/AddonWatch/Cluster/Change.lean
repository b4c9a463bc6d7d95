import AddonWatch.Cluster.Format
import AddonWatch.Cluster.Problem
import AddonWatch.Json.Reader

namespace AddonWatch.Cluster

/-- What a watch tells: an object is there as it is now, or it is gone; nothing has happened up to
a version; or something is wrong. -/
inductive Change (α : Type) where
  | put (object : α)
  | removed (object : α)
  | reached (version : String)
  | problem (problem : Problem)

/-- The types of changes. -/
inductive ChangeKind where
  | put
  | removed
  | reached
  | problem
deriving DecidableEq, Repr, Inhabited

namespace ChangeKind

def named : String → Except Flaw ChangeKind
  | "ADDED" | "MODIFIED" => .ok .put
  | "DELETED" => .ok .removed
  | "BOOKMARK" => .ok .reached
  | "ERROR" => .ok .problem
  | _ => .error .misplaced

/-- The type stands as a text or as the one key of an object, with null behind it. Nothing else that
has begun is waited for. -/
def decode : Json → Except Flaw ChangeKind
  | .str name => named name
  | .obj ((_, .cut .key) :: _) => .error .brokenOff
  | .obj ((_, .cut .bareKey) :: _) => .error .brokenOff
  | .obj ((name, value) :: rest) => do
    let kind ← named name
    value.expect Json.null?
    Json.ends (rest.map (·.2))
    return kind
  | .cut .keyword => .error .misplaced
  | .cut .number => .error .misplaced
  | document => document.refuse

end ChangeKind

namespace Change

variable {α : Type}

/-- Takes over one field of what a bookmark says about itself. -/
def putMark (found : String) (m : String × Json) : Except Flaw String :=
  match m.1 with
  | "resourceVersion" => m.2.text
  | "annotations" => m.2.textMap.map fun _ => found
  | _ => m.2.pass.map fun _ => found

/-- The version that a bookmark has come to. -/
def decodeMark (document : Json) : Except Flaw String := do
  let (found, given) ← document.takeFields ["resourceVersion", "annotations"] putMark ""
  Json.require ["resourceVersion"] given
  return found

def putBookmark (found : String) (m : String × Json) : Except Flaw String :=
  match m.1 with
  | "metadata" => decodeMark m.2
  | _ => m.2.keep.map fun _ => found

/-- A bookmark is an object of some kind with a version. -/
def decodeBookmark : Json → Except Flaw String
  | .obj members => do
    let (found, given) ← Json.takeFields ["metadata"] putBookmark "" (.obj members)
    Json.require ["metadata"] given
    let isText (name : String) := ((Json.onlyMember name members).bind Json.text?).isSome
    if isText "apiVersion" && isText "kind" then return found else throw .misplaced
  | document => document.refuse

/-- Reads the object of a change of that kind. -/
def ofObject (format : Format α) (object : Json) : ChangeKind → Except Flaw (Change α)
  | .put => (format.decode object).map .put
  | .removed => (format.decode object).map .removed
  | .reached => (decodeBookmark object).map .reached
  | .problem => (Problem.decode object).map .problem

/-- A change as far as its members are known. An object that stands before its type is kept until
the type is known. -/
structure Draft (α : Type) where
  kind : Option ChangeKind := none
  object : Option Json := none
  change : Option (Change α) := none

/-- Takes over one member; type and object come once, and all else is passed over. -/
def Draft.put (format : Format α) (draft : Draft α) (m : String × Json) :
    Except Flaw (Draft α) :=
  match m.1 with
  | "type" => do
    let kind ← ChangeKind.decode m.2
    let change ← draft.object.mapM fun object => ofObject format object kind
    return { draft with kind := some kind, change := change }
  | "object" =>
    match draft.kind with
    | some kind => (ofObject format m.2 kind).map fun v => { draft with change := some v }
    | none => m.2.keep.map fun v => { draft with object := some v }
  | _ => m.2.pass.map fun _ => draft

/-- A change has a type and an object, by name or in this order. In this order the type is a
text. -/
def decode (format : Format α) : Json → Except Flaw (Change α)
  | .obj members => do
    let (draft, _) ← Json.takeFields ["type", "object"] (Draft.put format) {} (.obj members)
    match draft.change with
    | some change => return change
    | none => throw .misplaced
  | .arr (type :: object :: rest) => do
    let change ← ofObject format object (← ChangeKind.named (← type.text))
    Json.ends rest
    return change
  | .arr [type] => do
    let _ ← type.text
    throw .misplaced
  | document => document.refuse

/-- Reads one line of a watch. A line that breaks off says nothing, and one that is no change may
still be a problem. -/
def ofLine? (format : Format α) (line : String) : Option (Except RequestFault (Change α)) :=
  match Json.read line with
  | none => some (.error .undecodable)
  | some document =>
    match decode format document, Problem.decode document with
    | .ok change, _ => some (.ok change)
    | .error .brokenOff, _ => none
    | .error .misplaced, .ok found => some (.error found.fault)
    | .error .misplaced, .error _ => some (.error .undecodable)

end Change

/-- A carriage return at the end is no part of a line. -/
def trimLine (line : List Char) : String :=
  String.ofList (if line.getLast? = some '\r' then line.dropLast else line)

/-- The lines of a text, each ended by a line feed; behind the last line feed there may be one
more line, but a carriage return alone is none. -/
def linesOf : List Char → List Char → List String
  | line, [] =>
    let line := line.reverse
    if line.isEmpty || line = ['\r'] then [] else [trimLine line]
  | line, '\n' :: rest => trimLine line.reverse :: linesOf [] rest
  | line, c :: rest => linesOf (c :: line) rest

def lines (s : String) : List String :=
  linesOf [] s.toList

end AddonWatch.Cluster

import AddonWatch.Cluster.Exchange

namespace AddonWatch.Cluster

/-- A type of objects that a cluster serves, as its catalogue lists it. -/
structure ServedType where
  name : String := ""
  group : Option String := none
deriving DecidableEq, Repr, Inhabited

/-- The types that a cluster serves under one group and version. -/
structure Catalogue where
  groupVersion : String := ""
  types : List ServedType := []
deriving Repr, Inhabited

namespace ServedType

/-- Takes over one member; a later one replaces an earlier one, and unknown ones are passed over. -/
def put (found : ServedType) (m : String × Json) : Except Flaw ServedType :=
  match m.1 with
  | "group" => (m.2.optional Json.text).map fun v => { found with group := v }
  | "name" => (m.2.optional Json.text).map fun v => { found with name := v.getD "" }
  | "kind" | "singularName" | "storageVersionHash" | "version" =>
    (m.2.optional Json.text).map fun _ => found
  | "namespaced" => (m.2.optional Json.flag).map fun _ => found
  | "categories" | "shortNames" | "verbs" =>
    (m.2.optional (Json.list Json.text)).map fun _ => found
  | _ => m.2.pass.map fun _ => found

def decode : Json → Except Flaw ServedType :=
  Json.takeMembers put {}

end ServedType

namespace Catalogue

/-- The text that says what a document is, and says it rightly. -/
def named (text : String) (document : Json) : Except Flaw Unit :=
  document.expect fun d => if d.text? = some text then some () else none

/-- Takes over one member; a catalogue that says what it is must say so rightly. -/
def put (found : Catalogue) (m : String × Json) : Except Flaw Catalogue :=
  match m.1 with
  | "apiVersion" => (named "v1" m.2).map fun _ => found
  | "kind" => (named "APIResourceList" m.2).map fun _ => found
  | "groupVersion" =>
    (m.2.optional Json.text).map fun v => { found with groupVersion := v.getD "" }
  | "resources" =>
    (m.2.optional (Json.list ServedType.decode)).map fun v => { found with types := v.getD [] }
  | _ => m.2.pass.map fun _ => found

def decode : Json → Except Flaw Catalogue :=
  Json.takeMembers put {}

/-- What stands before the first slash of the group and version, if there is one. -/
def group (catalogue : Catalogue) : String :=
  match catalogue.groupVersion.toList.span (· ≠ '/') with
  | (group, _ :: _) => String.ofList group
  | (_, []) => ""

/-- The first type of that name; a name with a slash is that of a part of a type. -/
def find? (catalogue : Catalogue) (resource : String) : Option ServedType :=
  catalogue.types.find? fun served => served.name = resource && !served.name.contains '/'

/-- Group and version as they stand in a path, where one slash before them does not count. -/
def segment (catalogue : Catalogue) : String :=
  match catalogue.groupVersion.toList with
  | '/' :: rest => String.ofList rest
  | _ => catalogue.groupVersion

/-- Where the objects of a type are found, in one namespace or in all of them. -/
def location (catalogue : Catalogue) (served : ServedType) (ns : Option String) : String :=
  let root := if served.group.getD catalogue.group = "" then "/api/" else "/apis/"
  let scope := match ns with
    | some ns => "namespaces/" ++ ns ++ "/"
    | none => ""
  root ++ catalogue.segment ++ "/" ++ scope ++ served.name

end Catalogue

end Cluster

namespace Target

/-- Group and version of the type; the core group has no name. -/
def groupVersion (target : Target) : String :=
  if target.group = "" then target.version else target.group ++ "/" ++ target.version

def catalogueAddress (target : Target) : String :=
  (if target.group = "" then "/api/" else "/apis/") ++ target.groupVersion

/-- Looks up where the objects of the target's type are found; nothing is heard if the question is
never answered. -/
def locate (target : Target) (x : Cluster.Exchange) :
    Option (Except Fault String) × Cluster.Exchange :=
  let (answer, x) := x.request { address := target.catalogueAddress } Cluster.Catalogue.decode
  let result := answer.map fun
    | .ok catalogue =>
      match catalogue.find? target.resource with
      | some served => .ok (catalogue.location served target.ns)
      | none => .error (.unknownResource (target.groupVersion ++ "/" ++ target.resource))
    | .error .malformedAddress => .error (.request .malformedGroup)
    | .error cause => .error (.request cause)
  (result, x)

end Target

end AddonWatch

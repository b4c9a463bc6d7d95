import AddonWatch.Addon.Document
import AddonWatch.Json.Decoding

namespace AddonWatch

namespace Json

def stamp? (document : Json) : Option Stamp :=
  document.text?.bind Stamp.parse?

def generation? (document : Json) : Option Generation :=
  document.int?.bind Generation.ofInt?

def flag : Json → Except Flaw Bool :=
  expect bool?

def stamp : Json → Except Flaw Stamp :=
  expect stamp?

def generation : Json → Except Flaw Generation :=
  expect generation?

end Json

namespace OwnerReference

/-- Takes over one member; a later one replaces an earlier one, and unknown ones are passed over. -/
def put (owner : OwnerReference) (m : String × Json) : Except Flaw OwnerReference :=
  match m.1 with
  | "apiVersion" => (m.2.optional Json.text).map fun v => { owner with apiVersion := v.getD "" }
  | "blockOwnerDeletion" =>
    (m.2.optional Json.flag).map fun v => { owner with blocksDeletion := v }
  | "controller" => (m.2.optional Json.flag).map fun v => { owner with controller := v }
  | "kind" => (m.2.optional Json.text).map fun v => { owner with kind := v.getD "" }
  | "name" => (m.2.optional Json.text).map fun v => { owner with name := v.getD "" }
  | "uid" => (m.2.optional Json.text).map fun v => { owner with uid := v.getD "" }
  | _ => m.2.pass.map fun _ => owner

def decode : Json → Except Flaw OwnerReference :=
  Json.takeMembers put {}

end OwnerReference

namespace ManagedFields

/-- Takes over one member; a later one replaces an earlier one, and unknown ones are passed over. -/
def put (entry : ManagedFields) (m : String × Json) : Except Flaw ManagedFields :=
  match m.1 with
  | "apiVersion" => (m.2.optional Json.text).map fun v => { entry with apiVersion := v }
  | "fieldsType" => (m.2.optional Json.text).map fun v => { entry with fieldsType := v }
  | "fieldsV1" => (m.2.optional Json.keep).map fun v => { entry with fields := v }
  | "manager" => (m.2.optional Json.text).map fun v => { entry with manager := v }
  | "operation" => (m.2.optional Json.text).map fun v => { entry with operation := v }
  | "subresource" => (m.2.optional Json.text).map fun v => { entry with subresource := v }
  | "time" => (m.2.optional Json.stamp).map fun v => { entry with time := v }
  | _ => m.2.pass.map fun _ => entry

def decode : Json → Except Flaw ManagedFields :=
  Json.takeMembers put {}

end ManagedFields

namespace Metadata

/-- Takes over one member; a later one replaces an earlier one, and unknown ones are passed over. -/
def put (found : Metadata) (m : String × Json) : Except Flaw Metadata :=
  match m.1 with
  | "annotations" => (m.2.optional Json.textMap).map fun v => { found with annotations := v }
  | "creationTimestamp" => (m.2.optional Json.stamp).map fun v => { found with creation := v }
  | "deletionGracePeriodSeconds" =>
    (m.2.optional Json.generation).map fun v => { found with deletionGrace := v }
  | "deletionTimestamp" => (m.2.optional Json.stamp).map fun v => { found with deletion := v }
  | "finalizers" =>
    (m.2.optional (Json.list Json.text)).map fun v => { found with finalizers := v }
  | "generateName" => (m.2.optional Json.text).map fun v => { found with generateName := v }
  | "generation" => (m.2.optional Json.generation).map fun v => { found with generation := v }
  | "labels" => (m.2.optional Json.textMap).map fun v => { found with labels := v }
  | "managedFields" =>
    (m.2.optional (Json.list ManagedFields.decode)).map fun v => { found with managedFields := v }
  | "name" => (m.2.optional Json.text).map fun v => { found with name := v }
  | "namespace" => (m.2.optional Json.text).map fun v => { found with ns := v }
  | "ownerReferences" =>
    (m.2.optional (Json.list OwnerReference.decode)).map fun v => { found with owners := v }
  | "resourceVersion" => (m.2.optional Json.text).map fun v => { found with resourceVersion := v }
  | "selfLink" => (m.2.optional Json.text).map fun v => { found with selfLink := v }
  | "uid" => (m.2.optional Json.text).map fun v => { found with uid := v }
  | _ => m.2.pass.map fun _ => found

def decode : Json → Except Flaw Metadata :=
  Json.takeMembers put {}

end Metadata

namespace Reference

def fieldNames : List String :=
  ["group", "version", "resource", "namespace", "name", "lastObservedGeneration"]

/-- Takes over one field, none of which is null. -/
def put (found : Reference) (m : String × Json) : Except Flaw Reference :=
  match m.1 with
  | "group" => m.2.text.map fun v => { found with group := v }
  | "version" => m.2.text.map fun v => { found with version := v }
  | "resource" => m.2.text.map fun v => { found with resource := v }
  | "namespace" => m.2.text.map fun v => { found with ns := v }
  | "name" => m.2.text.map fun v => { found with name := v }
  | "lastObservedGeneration" => m.2.generation.map fun v => { found with observed := v }
  | _ => m.2.pass.map fun _ => found

/-- A reference names a resource and an object; its other fields may be left out. -/
def decode (document : Json) : Except Flaw Reference := do
  let (found, given) ← document.takeFields fieldNames put {}
  Json.require ["resource", "name"] given
  return found

end Reference

namespace Status

def put (found : Status) (m : String × Json) : Except Flaw Status :=
  match m.1 with
  | "configReference" =>
    (m.2.optional Reference.decode).map fun v => { found with reference := v }
  | _ => m.2.pass.map fun _ => found

def decode (document : Json) : Except Flaw Status :=
  (document.takeFields ["configReference"] put {}).map (·.1)

end Status

namespace Addon

def putSpec (found : Option String) (m : String × Json) : Except Flaw (Option String) :=
  match m.1 with
  | "installNamespace" => m.2.optional Json.text
  | _ => m.2.pass.map fun _ => found

/-- The install namespace out of the specification. -/
def decodeSpec (document : Json) : Except Flaw (Option String) :=
  (document.takeFields ["installNamespace"] putSpec none).map (·.1)

def put (addon : Addon) (m : String × Json) : Except Flaw Addon :=
  match m.1 with
  | "metadata" => (Metadata.decode m.2).map fun v => { addon with metadata := v }
  | "spec" => (decodeSpec m.2).map fun v => { addon with installNs := v }
  | "status" => (m.2.optional Status.decode).map fun v => { addon with status := v }
  | _ => m.2.pass.map fun _ => addon

/-- Metadata and specification are there, the status may be missing. As an array the document has
all three. -/
def decode (document : Json) : Except Flaw Addon := do
  let (addon, given) ← document.takeFields ["metadata", "spec", "status"] put {}
  Json.require ["metadata", "spec"] given
  if document matches .arr _ then Json.require ["status"] given
  return addon

end Addon

end AddonWatch

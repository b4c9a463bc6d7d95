import AddonWatch.Addon.Document

namespace AddonWatch

namespace Json

/-- An object of the members that are there. -/
def record (members : List (String × Option Json)) : Json :=
  .obj (members.filterMap fun m => m.2.map (m.1, ·))

def ofTextMap (entries : List (String × String)) : Json :=
  .obj (entries.map fun e => (e.1, .str e.2))

end Json

def Generation.encode (g : Generation) : Json :=
  .int g.val

def Stamp.encode (stamp : Stamp) : Json :=
  .str stamp.text

def OwnerReference.encode (owner : OwnerReference) : Json :=
  Json.record [
    ("apiVersion", some (.str owner.apiVersion)),
    ("blockOwnerDeletion", owner.blocksDeletion.map .bool),
    ("controller", owner.controller.map .bool),
    ("kind", some (.str owner.kind)),
    ("name", some (.str owner.name)),
    ("uid", some (.str owner.uid))]

def ManagedFields.encode (entry : ManagedFields) : Json :=
  Json.record [
    ("apiVersion", entry.apiVersion.map .str),
    ("fieldsType", entry.fieldsType.map .str),
    ("fieldsV1", entry.fields),
    ("manager", entry.manager.map .str),
    ("operation", entry.operation.map .str),
    ("subresource", entry.subresource.map .str),
    ("time", entry.time.map Stamp.encode)]

def Metadata.encode (m : Metadata) : Json :=
  Json.record [
    ("annotations", m.annotations.map Json.ofTextMap),
    ("creationTimestamp", m.creation.map Stamp.encode),
    ("deletionGracePeriodSeconds", m.deletionGrace.map Generation.encode),
    ("deletionTimestamp", m.deletion.map Stamp.encode),
    ("finalizers", m.finalizers.map fun names => .arr (names.map .str)),
    ("generateName", m.generateName.map .str),
    ("generation", m.generation.map Generation.encode),
    ("labels", m.labels.map Json.ofTextMap),
    ("managedFields", m.managedFields.map fun entries => .arr (entries.map ManagedFields.encode)),
    ("name", m.name.map .str),
    ("namespace", m.ns.map .str),
    ("ownerReferences", m.owners.map fun owners => .arr (owners.map OwnerReference.encode)),
    ("resourceVersion", m.resourceVersion.map .str),
    ("selfLink", m.selfLink.map .str),
    ("uid", m.uid.map .str)]

/-- A reference is written with all its fields. -/
def Reference.encode (reference : Reference) : Json :=
  .obj [
    ("group", .str reference.group),
    ("version", .str reference.version),
    ("resource", .str reference.resource),
    ("namespace", .str reference.ns),
    ("name", .str reference.name),
    ("lastObservedGeneration", reference.observed.encode)]

def Status.encode (status : Status) : Json :=
  Json.record [("configReference", status.reference.map Reference.encode)]

namespace Addon

def apiGroup : String := "addon.open-cluster-management.io"

def apiVersion : String := "v1alpha1"

def apiGroupVersion : String := apiGroup ++ "/" ++ apiVersion

def kind : String := "ManagedClusterAddOn"

def plural : String := "managedclusteraddons"

def encode (addon : Addon) : Json :=
  Json.record [
    ("apiVersion", some (.str apiGroupVersion)),
    ("kind", some (.str kind)),
    ("metadata", some addon.metadata.encode),
    ("spec", some (Json.record [("installNamespace", addon.installNs.map .str)])),
    ("status", addon.status.map Status.encode)]

end Addon

end AddonWatch

import AddonWatch.Addon.Encoding

namespace AddonWatch.Addon

def described (description : String) (schema : List (String × Json)) : Json :=
  .obj (("description", .str description) :: schema)

def textSchema : List (String × Json) := [("type", .str "string")]

def objectSchema (properties : List (String × Json)) : List (String × Json) :=
  [("type", .str "object"), ("properties", .obj properties)]

/-- The schema of a reference, with the standard of each field that may be left out. -/
def referenceSchema : List (String × Json) :=
  objectSchema [
    ("group", described "API group, empty for the core group."
      (("default", .str "") :: textSchema)),
    ("version", described "API version. Empty until the reference has been discovered."
      (("default", .str "") :: textSchema)),
    ("resource", described "Plural resource name." textSchema),
    ("namespace", described "Namespace of the object, empty when cluster scoped."
      (("default", .str "") :: textSchema)),
    ("name", .obj textSchema),
    ("lastObservedGeneration",
      described "The config object's generation as last seen by the config watcher."
        [("default", .int 0), ("type", .str "integer"), ("format", .str "int64")])] ++
  [("required", .arr [.str "name", .str "resource"])]

def schema : Json :=
  .obj ([
    ("title", .str kind),
    ("description",
      .str "Auto-generated derived type for ManagedClusterAddOnSpec via \x60CustomResource\x60")] ++
    objectSchema [
      ("spec", described "A managed addon instance on a cluster." (objectSchema [
        ("installNamespace",
          described "Namespace on the managed cluster the addon agent is installed into."
            (("nullable", .bool true) :: textSchema))])),
      ("status", .obj (("nullable", .bool true) :: objectSchema [
        ("configReference",
          described "The configuration object the addon follows, once discovered."
            (("nullable", .bool true) :: referenceSchema))]))] ++
    [("required", .arr [.str "spec"])])

/-- The definition that makes a cluster serve addons. -/
def definition : Json :=
  .obj [
    ("apiVersion", .str "apiextensions.k8s.io/v1"),
    ("kind", .str "CustomResourceDefinition"),
    ("metadata", .obj [("name", .str (plural ++ "." ++ apiGroup))]),
    ("spec", .obj [
      ("group", .str apiGroup),
      ("names", .obj [
        ("categories", .arr []),
        ("kind", .str kind),
        ("plural", .str plural),
        ("shortNames", .arr []),
        ("singular", .str "managedclusteraddon")]),
      ("scope", .str "Namespaced"),
      ("versions", .arr [.obj [
        ("additionalPrinterColumns", .arr []),
        ("name", .str apiVersion),
        ("schema", .obj [("openAPIV3Schema", schema)]),
        ("served", .bool true),
        ("storage", .bool true),
        ("subresources", .obj [("status", .obj [])])]])])]

end AddonWatch.Addon

import AddonWatch.Addon.Decoding

namespace AddonWatch.Cluster

/-- How the objects of a type are read from a document, and what they say about themselves. -/
structure Format (α : Type) where
  decode : Json → Except Flaw α
  metadata : α → Metadata

namespace Format

def objectName {α : Type} (format : Format α) (object : α) : ObjectName :=
  (format.metadata object).objectName

/-- Whether the object says its name, be it an empty one. -/
def isNamed {α : Type} (format : Format α) (object : α) : Bool :=
  (format.metadata object).name.isSome

/-- The version that the cluster gave the object, if it gave one. -/
def version? {α : Type} (format : Format α) (object : α) : Option String :=
  (format.metadata object).resourceVersion.filter (· ≠ "")

/-- Addons are read in full. -/
def addons : Format Addon where
  decode := Addon.decode
  metadata := Addon.metadata

def putMetadata (found : Metadata) (m : String × Json) : Except Flaw Metadata :=
  match m.1 with
  | "metadata" => Metadata.decode m.2
  | _ => m.2.keep.map fun _ => found

/-- Of an object of any other type everything but the metadata is kept as it is. -/
def decodeMetadata : Json → Except Flaw Metadata
  | .obj members => (Json.takeFields ["metadata"] putMetadata {} (.obj members)).map (·.1)
  | document => document.refuse

def objects : Format Metadata where
  decode := decodeMetadata
  metadata := id

end Format

end AddonWatch.Cluster

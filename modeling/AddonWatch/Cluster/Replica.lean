import AddonWatch.Cluster.Format
import AddonWatch.Sighting

namespace AddonWatch.Cluster

/-- What a cluster lets its followers know about the objects of a type. -/
inductive News (α : Type) where
  | put (object : α)
  | removed (object : α)
  | replaced (objects : List α)

/-- A copy of the objects of a type, by name and in the order of names. -/
structure Replica (α : Type) where
  entries : List (ObjectName × α) := []

instance {α : Type} : Inhabited (Replica α) := ⟨{}⟩

namespace Replica

variable {α : Type}

def lookup (replica : Replica α) (name : ObjectName) : Option α :=
  (replica.entries.find? fun entry => entry.1 = name).map (·.2)

/-- The object of that name; failing that, the one of the same name that belongs to the whole
cluster. -/
def get? (replica : Replica α) (name : ObjectName) : Option α :=
  (replica.lookup name).or (replica.lookup ⟨none, name.name⟩)

def names (replica : Replica α) : List ObjectName :=
  replica.entries.map (·.1)

/-- Puts an object into its place in the order of names, or over the one of its name. -/
def insertEntry (name : ObjectName) (object : α) :
    List (ObjectName × α) → List (ObjectName × α)
  | [] => [(name, object)]
  | (other, found) :: rest =>
    if other = name then (name, object) :: rest
    else if name.before other then (name, object) :: (other, found) :: rest
    else (other, found) :: insertEntry name object rest

def insert (format : Format α) (replica : Replica α) (object : α) : Replica α :=
  ⟨insertEntry (format.objectName object) object replica.entries⟩

def erase (replica : Replica α) (name : ObjectName) : Replica α :=
  ⟨replica.entries.filter fun entry => entry.1 ≠ name⟩

/-- Of objects with the same name the last one stays. -/
def apply (format : Format α) (replica : Replica α) : News α → Replica α
  | .put object => replica.insert format object
  | .removed object => replica.erase (format.objectName object)
  | .replaced objects => objects.foldl (Replica.insert format) {}

end Replica

def News.objects {α : Type} : News α → List α
  | .put object => [object]
  | .removed object => [object]
  | .replaced objects => objects

/-- The sightings that tell of a piece of news, one for each object that it holds. -/
def News.sightings {α : Type} (format : Format α) : News α → List Sighting
  | .put object => [⟨format.objectName object, true⟩]
  | .removed object => [⟨format.objectName object, false⟩]
  | .replaced objects => objects.map fun object => ⟨format.objectName object, true⟩

end AddonWatch.Cluster

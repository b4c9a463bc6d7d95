import AddonWatch.Generation
import AddonWatch.ObjectName

namespace AddonWatch

/-- Points at one configuration object of any type. An empty group is the core group, an empty
namespace means the whole cluster, and the version stays empty until the type has been found. -/
structure Reference where
  group : String := ""
  version : String := ""
  resource : String := ""
  ns : String := ""
  name : String := ""
  observed : Generation := .zero
deriving DecidableEq, Repr, Inhabited

/-- The identity of the object that a reference points at. -/
structure Fingerprint where
  text : String
deriving DecidableEq, Repr, Inhabited

/-- The type and name of the one configuration object that a watcher follows. -/
structure Target where
  group : String
  version : String
  resource : String
  ns : Option String
  name : String
deriving DecidableEq, Repr, Inhabited

namespace Target

def objectName (target : Target) : ObjectName :=
  ⟨target.ns, target.name⟩

def typeText (target : Target) : String :=
  target.group ++ "/" ++ target.version ++ "/" ++ target.resource

def text (target : Target) : String :=
  target.typeText ++ " " ++ target.objectName.text

end Target

namespace Reference

def isDiscovered (reference : Reference) : Bool :=
  reference.version ≠ ""

/-- The five coordinates between slashes; the observed generation is no part of the identity. -/
def fingerprint (reference : Reference) : Fingerprint :=
  ⟨reference.group ++ "/" ++ reference.version ++ "/" ++ reference.resource ++ "/" ++
    reference.ns ++ "/" ++ reference.name⟩

def target (reference : Reference) : Target where
  group := reference.group
  version := reference.version
  resource := reference.resource
  ns := if reference.ns = "" then none else some reference.ns
  name := reference.name

end Reference

end AddonWatch

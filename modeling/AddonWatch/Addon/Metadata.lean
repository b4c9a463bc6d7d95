import AddonWatch.Generation
import AddonWatch.ObjectName
import AddonWatch.Json.Value
import AddonWatch.Text.Stamp

namespace AddonWatch

/-- An object that another one belongs to. -/
structure OwnerReference where
  apiVersion : String := ""
  blocksDeletion : Option Bool := none
  controller : Option Bool := none
  kind : String := ""
  name : String := ""
  uid : String := ""
deriving Inhabited

/-- Who last wrote which fields of an object; the fields are kept as they are. -/
structure ManagedFields where
  apiVersion : Option String := none
  fieldsType : Option String := none
  fields : Option Json := none
  manager : Option String := none
  operation : Option String := none
  subresource : Option String := none
  time : Option Stamp := none
deriving Inhabited

/-- What every object of a cluster says about itself. -/
structure Metadata where
  annotations : Option (List (String × String)) := none
  creation : Option Stamp := none
  deletionGrace : Option Generation := none
  deletion : Option Stamp := none
  finalizers : Option (List String) := none
  generateName : Option String := none
  generation : Option Generation := none
  labels : Option (List (String × String)) := none
  managedFields : Option (List ManagedFields) := none
  name : Option String := none
  ns : Option String := none
  owners : Option (List OwnerReference) := none
  resourceVersion : Option String := none
  selfLink : Option String := none
  uid : Option String := none
deriving Inhabited

namespace Metadata

def objectName (m : Metadata) : ObjectName :=
  ⟨m.ns, m.name.getD ""⟩

end Metadata

end AddonWatch

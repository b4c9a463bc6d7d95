import AddonWatch.Addon.Key
import AddonWatch.Addon.Metadata
import AddonWatch.Addon.Reference

namespace AddonWatch

/-- What has been found out about an addon. -/
structure Status where
  reference : Option Reference := none
deriving DecidableEq, Repr, Inhabited

/-- An addon installed on a managed cluster, as the hub stores it. -/
structure Addon where
  metadata : Metadata := {}
  installNs : Option String := none
  status : Option Status := none
deriving Inhabited

namespace Addon

def key (addon : Addon) : AddonKey where
  ns := addon.metadata.ns.getD ""
  name := (addon.metadata.name <|> addon.metadata.generateName).getD ""

def objectName (addon : Addon) : ObjectName :=
  addon.metadata.objectName

def isDeleting (addon : Addon) : Bool :=
  addon.metadata.deletion.isSome

def reference (addon : Addon) : Option Reference :=
  addon.status.bind Status.reference

/-- The reference that a watcher should follow now: a found one, of an addon that stays. -/
def desired (addon : Addon) : Option Reference :=
  if addon.isDeleting then none else addon.reference.filter Reference.isDiscovered

/-- The addon with that observed generation in its reference, if it has one. -/
def withObserved (addon : Addon) (observed : Generation) : Addon :=
  { addon with
    status := addon.status.map fun status =>
      { status with reference := status.reference.map ({ · with observed := observed }) } }

end Addon

end AddonWatch

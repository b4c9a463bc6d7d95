import AddonWatch.ObjectName

namespace AddonWatch

/-- The name under which work on an addon is queued. -/
structure AddonKey where
  ns : String
  name : String
deriving DecidableEq, Repr, Inhabited

namespace AddonKey

def text (key : AddonKey) : String :=
  key.ns ++ "/" ++ key.name

/-- Reads `ns/name`, where both parts hold something and neither holds a slash. -/
def parse? (s : String) : Option AddonKey :=
  match s.toList.span (· ≠ '/') with
  | (ns, _ :: name) =>
    if ns.isEmpty || name.isEmpty || name.contains '/' then none
    else some ⟨String.ofList ns, String.ofList name⟩
  | (_, []) => none

def objectName (key : AddonKey) : ObjectName :=
  ⟨some key.ns, key.name⟩

/-- The order of the namespaces, then of the names. -/
def before (a b : AddonKey) : Bool :=
  a.ns < b.ns || (a.ns = b.ns && a.name < b.name)

end AddonKey

end AddonWatch

namespace AddonWatch

/-- Names one object of a known type; an object without a namespace belongs to the whole cluster. -/
structure ObjectName where
  ns : Option String
  name : String
deriving DecidableEq, Repr, Inhabited

namespace ObjectName

def text (q : ObjectName) : String :=
  match q.ns with
  | some ns => ns ++ "/" ++ q.name
  | none => q.name

/-- Names without a namespace come first, then the order of the namespaces, then of the names;
texts are ordered by code points. -/
def before (a b : ObjectName) : Bool :=
  match a.ns, b.ns with
  | none, none => a.name < b.name
  | none, some _ => true
  | some _, none => false
  | some x, some y => x < y || (x = y && a.name < b.name)

end ObjectName

end AddonWatch

import AddonWatch.Fault

namespace AddonWatch

/-- An object was seen to be there, or to be gone. -/
structure Sighting where
  object : ObjectName
  present : Bool
deriving DecidableEq, Repr, Inhabited

/-- An item of an event stream: a sighting or an interruption. -/
abbrev Signal := Except Fault Sighting

/-- Sightings of objects with other names are dropped, interruptions never are. -/
def Signal.passes (names : List String) : Signal → Bool
  | .ok sighting => names.contains sighting.object.name
  | .error _ => true

def onlyNamed (names : List String) (signals : List Signal) : List Signal :=
  signals.filter (Signal.passes names)

end AddonWatch

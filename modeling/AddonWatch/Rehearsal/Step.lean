import AddonWatch.Json.Value
import AddonWatch.Supervision

namespace AddonWatch

/-- A child task that only stands for a watcher. -/
inductive StandIn where
  | cooperative
  | stubborn
  | finished
  | panicking
  | panicsOnCancel
  | slow (ms : Nat)
  | timed (ms : Nat)
deriving DecidableEq, Repr, Inhabited

def StandIn.timed? (now : Nat) : StandIn → Timed
  | cooperative => ⟨none, some (0, .returns)⟩
  | stubborn => {}
  | finished => ⟨some (now, .returns), none⟩
  | panicking => ⟨some (now, .crashes), none⟩
  | panicsOnCancel => ⟨none, some (0, .crashes)⟩
  | slow ms => ⟨none, some (ms, .returns)⟩
  | timed ms => ⟨some (now + ms, .returns), none⟩

/-- One line of a rehearsal: something happens in the hub, a call is made, or time passes. A silent
change reaches no event stream. -/
inductive Step where
  | putAddon (document : Json) (silent : Bool)
  | deleteAddon (object : ObjectName) (silent : Bool)
  | addonEvent (sighting : Sighting)
  | addonStreamError
  | addonStreamEnd
  | putConfig (reference : Reference) (generation : Option Generation) (silent : Bool)
  | deleteConfig (reference : Reference) (silent : Bool)
  | configEvent (reference : Reference) (sighting : Sighting)
  | configStreamError (name : Option String)
  | configStreamEnd (name : Option String)
  | writes (acts : List Act) (standard : Option Act)
  | opens (acts : List Act) (standard : Option Act)
  | addonsOpen (act : Act)
  | faultyReads (count : Nat)
  | readAddon (object : ObjectName)
  | wait (ms : Nat)
  | halt
  | observe (name : String)
  | follow (reference : Reference)
  | sync (key : String)
  | build (document : Json)
  | insert (key : AddonKey) (reference : Reference) (standIn : StandIn) (grace : Span)
  | get (key : AddonKey)
  | isCurrent (key : AddonKey) (reference : Reference)
  | trigger (key : AddonKey)
  | cancel (key : AddonKey) (grace : Span)
  | forget (key : AddonKey)
  | shutdown (grace : Span)
  | start
  | batch (steps : List Step)
deriving Inhabited

/-- How a child stood when it was looked at. -/
structure Standing where
  fingerprint : Fingerprint
  live : Bool
  finished : Bool
deriving DecidableEq, Repr, Inhabited

/-- What a step is answered with. -/
inductive Answer where
  | nothing
  | verdict (verdict : Verdict)
  | broken (message : String)
  | undecodable
  | addon (found : Option Addon)
  | built (fingerprint : Fingerprint) (displaced : Option (Standing × Bool))
  | inserted (displaced : Option (Standing × Bool))
  | standing (found : Option Standing)
  | flag (found : Option Bool)
  | stopped (found : Option Bool)
  | shutDown
  | many (answers : List Answer)
deriving Inhabited

end AddonWatch

import AddonWatch.Clockwork
import AddonWatch.Desk

namespace AddonWatch

/-- Where the leading task of a supervision is: not begun, opening the addon stream, handing out
work, waiting for the desks, or over. -/
inductive Lead where
  | absent
  | fresh
  | opening (call : Call) (deadline : Nat)
  | leading (feed : Nat) (streaming : Bool) (tick : Span)
  | joining
  | ended (verdict : Verdict)
  | broken (message : String)
deriving Inhabited

/-- A supervision: what all tasks share, the names of the addons that it recognises, one desk for
each partition, and the leading task. `route` says which partition a key text belongs to,
`arrangement` how a desk goes through its watchers, and `number` which task a desk is. -/
structure Supervision where
  site : Site := {}
  names : List String := []
  route : String → Nat := String.length
  arrangement : Arrangement := default
  number : Nat → Nat := id
  desks : List Desk := []
  lead : Lead := .absent
deriving Inhabited

namespace Supervision

def partition (s : Supervision) (key : String) : Nat :=
  s.route key % s.desks.length

def isOpenLead : Lead → Bool
  | .leading .. => true
  | _ => false

/-- No more work will come for the desks. -/
def isSealed (s : Supervision) : Bool :=
  !isOpenLead s.lead

def log (s : Supervision) (level : Level) (text : String) : Supervision :=
  { s with site := s.site.log level text }

def deliver (s : Supervision) (i : Nat) (work : Work) : Supervision :=
  { s with desks := s.desks.modify i fun desk => { desk with inbox := desk.inbox ++ [work] } }

/-- Gives a key to the desk of its partition, so that it is never worked on twice at once. -/
def dispatch (s : Supervision) (key : String) : Supervision :=
  let i := s.partition key
  if (s.desks[i]?.map Desk.isOver).getD true then
    s.log .debug ("Partition " ++ toString i ++ " closed, dropping work")
  else s.deliver i (.sync key)

/-- Every desk looks at all its watchers again, also at those of addons that are gone. -/
def resyncDesks (s : Supervision) : Supervision :=
  { s with
    desks := s.desks.map fun desk =>
      if desk.isOver then desk else { desk with inbox := desk.inbox ++ [.resync] } }

/-- Gives out every stored addon of a recognised name, and then every desk's own watchers. -/
def resync (s : Supervision) : Supervision :=
  let keys := (s.site.hub.addons.map Addon.objectName).filter fun q => s.names.contains q.name
  (keys.foldl (fun s q => s.dispatch q.text) s).resyncDesks

/-- An event stream that is given up has no reader any more. -/
def release (s : Supervision) (feed : Nat) : Supervision :=
  { s with site := { s.site with hub := s.site.hub.releaseFeed feed } }

def count (settings : Settings) : Nat :=
  max settings.workers 1

/-- With the addon stream open, the desks are set up and work is handed out from now on, if resyncs
can be set. -/
def begin (s : Supervision) : Supervision :=
  let (hub, feed) := s.site.hub.openAddons
  let s := { s with
    site := { s.site with hub := hub }
    desks := List.replicate (count s.site.settings)
      { arrangement := s.arrangement, alarms := { start := s.site.now } } }
  let s := s.log .info ("Supervising config watchers for addons " ++ quoteSet s.names)
  match s.site.settings.resyncFault? s.site.now with
  | some message => { s.release feed with lead := .broken message }
  | none => { s with lead := .leading feed true (s.site.settings.resyncInterval.after s.site.now) }

def answered (s : Supervision) : Reply → Supervision
  | .granted => s.begin
  | .refused refusal => { s with lead := .ended (.failed (refusal.fault ⟨"", ""⟩ "")) }
  | .crashed => { s with lead := .broken "injected panic" }

/-- Waits for the addon stream; nothing but the deadline ends that. -/
def stepOpening (s : Supervision) (call : Call) (deadline : Nat) : Option Supervision :=
  match call.advance s.site.now with
  | .inr reply => some (s.answered reply)
  | .inl next =>
    if deadline ≤ s.site.now then
      some { s with
        lead := .ended (.failed (.timeout s.site.settings.callTimeout)) }
    else if next = call then none
    else some { s with lead := .opening next deadline }

/-- A tick of the resync interval, when its time has come. -/
def stepTick (s : Supervision) (feed : Nat) (streaming : Bool) (tick : Span) :
    Option Supervision :=
  if tick.millis ≤ s.site.now then
    some { s.resync with
      lead := .leading feed streaming (s.site.settings.nextTick tick s.site.now) }
  else none

/-- The next item of the addon stream; sightings of other names are passed over. -/
def stepEvents (s : Supervision) (feed : Nat) (tick : Span) : Option Supervision :=
  match s.site.hub.receive feed with
  | (.signal signal, hub) =>
    let s := { s with site := { s.site with hub := hub } }
    if Signal.passes s.names signal then
      match signal with
      | .ok sighting => some (s.dispatch sighting.object.text)
      | .error fault =>
        some (s.log .warn ("Addon subscription interrupted, resyncing: " ++ fault.message)).resync
    else some s
  | (.ended, _) =>
    some { s.log .warn "Addon subscription ended" with lead := .leading feed false tick }
  | (.quiet, _) => s.stepTick feed true tick

/-- Cancellation comes first, then watchers that ended by themselves, addon events, and resync. -/
def stepLeading (s : Supervision) (feed : Nat) (streaming : Bool) (tick : Span) :
    Option Supervision :=
  if s.site.halted then
    some { (s.log .info "Stopping config watchers").release feed with lead := .joining }
  else
    match s.site.exits with
    | key :: rest => some ({ s with site := { s.site with exits := rest } }.dispatch key)
    | [] => if streaming then s.stepEvents feed tick else s.stepTick feed false tick

/-- What is said of the desk of a partition that has broken down. -/
def crashText (s : Supervision) (i : Nat) (message : String) : String :=
  "Supervisor worker failed: task " ++ toString (s.number i) ++ " panicked with message " ++
    quote message

/-- Reports the desk of a partition if it has broken down. -/
def reportCrash (s : Supervision) (e : Desk × Nat) : Supervision :=
  match e.1.phase with
  | .crashed message => s.log .error (s.crashText e.2 message)
  | _ => s

def reportCrashes (s : Supervision) : Supervision :=
  s.desks.zipIdx.foldl reportCrash s

/-- The supervision is over when every desk is. -/
def stepJoining (s : Supervision) : Option Supervision :=
  if s.desks.all Desk.isOver then some { s.reportCrashes with lead := .ended .done } else none

def stepLead (s : Supervision) : Option Supervision :=
  match s.lead with
  | .absent => none
  | .fresh =>
    some { s with
      lead := .opening ⟨s.site.now, s.site.hub.addonsOpen⟩
        (s.site.now + s.site.settings.callTimeout.millis) }
  | .opening call deadline => s.stepOpening call deadline
  | .leading feed streaming tick => s.stepLeading feed streaming tick
  | .joining => s.stepJoining
  | .ended _ => none
  | .broken _ => none

def stepDesk (s : Supervision) (i : Nat) : Option Supervision := do
  let desk ← s.desks[i]?
  let (site, desk) ← desk.step s.isSealed s.site
  return { s with site := site, desks := s.desks.set i desk }

def stepChild (s : Supervision) (i : Nat) : Option Supervision :=
  (s.site.stepChild i).map fun site => { s with site := site }

def leadTimers : Lead → List Nat
  | .opening call deadline => deadline :: call.timers
  | .leading _ _ tick => [tick.millis]
  | _ => []

/-- A set of names in order. -/
def nameSet (names : List String) : List String :=
  (names.mergeSort fun a b => !(b < a)).eraseDups

/-- A task of a supervision. -/
inductive Task where
  | child (i : Nat)
  | desk (i : Nat)
  | lead
deriving DecidableEq, Repr, Inhabited

def step (s : Supervision) : Task → Option Supervision
  | .child i => s.stepChild i
  | .desk i => s.stepDesk i
  | .lead => s.stepLead

def tasks (s : Supervision) : List Task :=
  (List.range s.site.children.length).map Task.child ++
    (List.range s.desks.length).map Task.desk ++ [.lead]

def timers (s : Supervision) : List Nat :=
  s.site.childTimers ++ s.desks.flatMap Desk.timers ++ leadTimers s.lead

/-- The child tasks, the desks and the leading task take turns. -/
def clockwork : Clockwork Task Supervision where
  tasks := tasks
  step := step
  timers := timers
  now s := s.site.now
  setNow moment s := { s with site := { s.site with now := moment } }

end Supervision

end AddonWatch

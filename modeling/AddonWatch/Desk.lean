import AddonWatch.Alarms
import AddonWatch.Reconciling

namespace AddonWatch

/-- Work that reaches a desk: one key, or every key that it holds a watcher for. -/
inductive Work where
  | sync (key : String)
  | resync
deriving DecidableEq, Repr, Inhabited

/-- The run of failures of a key, and its alarm while that has not gone off. -/
structure Retry where
  backoff : Backoff
  alarm : Option Nat := none
deriving DecidableEq, Repr, Inhabited

/-- Where a desk is: waiting for work, between keys, in one reconciliation, waiting for its
watchers to end, or done for good. -/
inductive DeskPhase where
  | idle
  | working (keys : List String)
  | reconciling (key : String) (work : Reconciling) (rest : List String)
  | closing (closing : Closing)
  | finished
  | crashed (message : String)
deriving Inhabited

/-- One partition of the addons: it alone touches their watchers, and reconciles one key at a time.
When it looks at all its watchers it goes through them as they are arranged then. -/
structure Desk where
  arrangement : Arrangement := default
  inbox : List Work := []
  roster : Roster := {}
  retries : List (String × Retry) := []
  alarms : Alarms := {}
  phase : DeskPhase := .idle
deriving Inhabited

namespace Desk

def isOver (desk : Desk) : Bool :=
  match desk.phase with
  | .finished => true
  | .crashed _ => true
  | _ => false

/-- The desk has broken down. -/
def isDown (desk : Desk) : Bool :=
  match desk.phase with
  | .crashed _ => true
  | _ => false

def putRetry (key : String) (retry : Retry) (retries : List (String × Retry)) :
    List (String × Retry) :=
  (key, retry) :: retries.filter fun e => e.1 ≠ key

/-- A desk that breaks down lets go of everything it holds; its watchers run on. -/
def crash (desk : Desk) (message : String) : Desk :=
  { desk with phase := .crashed message, inbox := [], roster := {}, retries := [], alarms := {} }

/-- Ends the run of failures of a key and takes its alarm out. -/
def forget (desk : Desk) (key : String) : Option Desk :=
  match desk.retries.lookup key with
  | none => some desk
  | some retry =>
    let desk := { desk with retries := desk.retries.filter fun e => e.1 ≠ key }
    match retry.alarm with
    | none => some desk
    | some id => (desk.alarms.remove? id).map fun alarms => { desk with alarms := alarms }

/-- Sets the one alarm of a key that failed, at the delay that its run of failures has reached, or
tells why it cannot be set. -/
def retryLater (desk : Desk) (key : String) (fault : Fault) (site : Site) :
    Site × Except String Desk :=
  let policy := site.settings.retry
  let retry := (desk.retries.lookup key).getD ⟨policy.start, none⟩
  let (delay, backoff) := policy.next retry.backoff
  let site := site.log .warn ("Reconcile of addon " ++ key ++ " failed, retrying in " ++
    delay.text ++ ": " ++ fault.message)
  let due := site.now + delay.millis
  let keep (id : Nat) (alarms : Alarms) : Desk :=
    { desk with retries := putRetry key ⟨backoff, some id⟩ desk.retries, alarms := alarms }
  (site,
    if !site.settings.reaches site.now delay then .error Settings.overflow
    else match retry.alarm with
      | some id =>
        ((desk.alarms.reset? id due).map fun alarms => .ok (keep id alarms)).getD
          (.error (desk.alarms.resetFault id))
      | none =>
        ((desk.alarms.insert? key due).map fun (id, alarms) => .ok (keep id alarms)).getD
          (.error Alarms.tooFar))

/-- What the outcome of one reconciliation means for the retries of its key. An alarm that cannot be
set, or should be there and is not, breaks the desk down. -/
def conclude (desk : Desk) (key : String) (site : Site) : Verdict → Site × Desk
  | .done => (site, (desk.forget key).getD (desk.crash Alarms.missing))
  | .failed fault =>
    if fault.isRetryable then
      match desk.retryLater key fault site with
      | (site, .ok next) => (site, next)
      | (site, .error message) => (site, desk.crash message)
    else
      (site.log .error ("Dropping addon key " ++ quote key ++ ": " ++ fault.message),
        (desk.forget key).getD (desk.crash Alarms.missing))
  | .crashed => (site, desk.crash "injected panic")

/-- An alarm has gone off: its key is worked on, and its retry has none any more. -/
def wake (desk : Desk) (alarm : Alarm) (alarms : Alarms) : Desk :=
  { desk with
    alarms := alarms
    retries := desk.retries.map fun e =>
      if e.1 = alarm.key then (e.1, { e.2 with alarm := none }) else e
    phase := .working [alarm.key] }

/-- Tells all watchers to end, and takes up no more work. -/
def close (desk : Desk) (site : Site) : Site × Desk :=
  let (site, closing) := Closing.start desk.roster site.settings.cancelGrace site
  (site, { desk with roster := {}, phase := .closing closing })

/-- Takes up the next work: an alarm before the inbox. If there is none, looking at the alarms may
still have changed them. -/
def takeUp (desk : Desk) (sealed : Bool) (site : Site) : Option (Site × Desk) :=
  match desk.alarms.pop site.now with
  | (some alarm, alarms) => some (site, desk.wake alarm alarms)
  | (none, alarms) =>
    let next := { desk with alarms := alarms }
    match desk.inbox with
    | .sync key :: rest => some (site, { next with inbox := rest, phase := .working [key] })
    | .resync :: rest =>
      some (site, { next with
        inbox := rest
        phase := .working ((desk.arrangement.keys site desk.roster).map AddonKey.text) })
    | [] =>
      if sealed then some (next.close site)
      else if alarms = desk.alarms then none
      else some (site, next)

/-- Goes on from one place of waiting to the next, if it can. When the scope is cancelled, a
reconciliation under way is dropped and all watchers are told to end. `sealed` says that no more
work will come. -/
def step (desk : Desk) (sealed : Bool) (site : Site) : Option (Site × Desk) :=
  match desk.phase with
  | .idle => if site.halted then some (desk.close site) else desk.takeUp sealed site
  | .working [] => some (site, { desk with phase := .idle })
  | .working (key :: rest) =>
    if site.halted then some (site, { desk with phase := .idle })
    else some (site, { desk with phase := .reconciling key (.fresh key) rest })
  | .reconciling key work rest =>
    if site.halted then some (site, { desk with phase := .idle })
    else (work.step desk.roster site).map fun
      | (site, roster, .inl next) =>
        (site, { desk with roster := roster, phase := .reconciling key next rest })
      | (site, roster, .inr verdict) =>
        ({ desk with roster := roster, phase := .working rest } : Desk).conclude key site verdict
  | .closing closing =>
    (closing.step site).map fun
      | (site, some next) => (site, { desk with phase := .closing next })
      | (site, none) => (site, { desk with phase := .finished, inbox := [] })
  | .finished => none
  | .crashed _ => none

def timers (desk : Desk) : List Nat :=
  match desk.phase with
  | .idle => desk.alarms.timers
  | .reconciling _ work _ => work.timers
  | .closing closing => closing.timers
  | _ => []

end Desk

end AddonWatch

import AddonWatch.Addon.Decoding
import AddonWatch.Rehearsal.Step

namespace AddonWatch

/-- The state of a rehearsal: a supervision that may or may not have begun, a roster that is worked
by hand, the assignment of a watcher that is driven by hand, and the child that runs it. -/
structure Rehearsal where
  supervision : Supervision := {}
  roster : Roster := {}
  assignment : Option Assignment := none
  solo : Option Nat := none
deriving Inhabited

namespace Rehearsal

/-- So many steps, turns and timers are looked at before a run that never settles is given up. -/
def patience : Nat := 100000000

def site (r : Rehearsal) : Site :=
  r.supervision.site

def setSite (r : Rehearsal) (site : Site) : Rehearsal :=
  { r with supervision := { r.supervision with site := site } }

def onHub (r : Rehearsal) (change : Hub → Hub) : Rehearsal :=
  r.setSite { r.site with hub := change r.site.hub }

def settle (r : Rehearsal) : Rehearsal :=
  { r with supervision := Supervision.clockwork.settle patience patience r.supervision }

def sleep (r : Rehearsal) (ms : Nat) : Rehearsal :=
  { r with
    supervision :=
      Supervision.clockwork.sleepUntil patience (r.site.now + ms) patience r.supervision }

/-- Does one piece of work on the site to its end, while all tasks go on and time passes. -/
def await {κ ρ : Type} (r : Rehearsal) (work : κ → Site → Option (Site × (κ ⊕ ρ)))
    (timers : κ → List Nat) (k : κ) : Rehearsal × Option ρ :=
  let (supervision, result) := Supervision.clockwork.await patience
    (fun k (s : Supervision) => (work k s.site).map fun (site, next) =>
      ({ s with site := site }, next))
    timers patience k r.supervision
  ({ r with supervision := supervision }, result)

def standing (r : Rehearsal) (handle : Handle) : Standing :=
  ⟨handle.fingerprint, handle.isLive r.site, r.site.isFinished handle.child⟩

def cancelHandle (r : Rehearsal) (handle : Handle) (grace : Span) : Rehearsal × Bool :=
  let (site, settling) := handle.cancel grace r.site
  let (r, stopped) := (r.setSite site).await
    (fun (s : Settling) site => (s.step site).map fun (site, stopped) => (site, .inr stopped))
    Settling.timers settling
  (r, stopped.getD false)

def shutRoster (r : Rehearsal) (grace : Span) : Rehearsal :=
  let (site, closing) := Closing.start r.roster grace r.site
  let (r, _) := ({ r with roster := {} }.setSite site).await
    (fun (c : Closing) site => (c.step site).map fun
      | (site, some next) => (site, Sum.inl next)
      | (site, none) => (site, Sum.inr ()))
    Closing.timers closing
  r

/-- Registers a handle, and cancels the one that it displaces. -/
def register (r : Rehearsal) (key : AddonKey) (handle : Handle) (grace : Span) :
    Rehearsal × Option (Standing × Bool) :=
  match r.roster.insert key handle with
  | (none, roster) => ({ r with roster := roster }, none)
  | (some displaced, roster) =>
    let standing := r.standing displaced
    let (r, stopped) := { r with roster := roster }.cancelHandle displaced grace
    (r, some (standing, stopped))

def verdictAnswer : Verdict → Answer
  | .crashed => .broken "injected panic"
  | verdict => .verdict verdict

def sync (r : Rehearsal) (key : String) : Rehearsal × Answer :=
  let (r, result) := r.await
    (fun (k : Reconciling × Roster) site => (k.1.step k.2 site).map fun
      | (site, roster, .inl next) => (site, Sum.inl (next, roster))
      | (site, roster, .inr verdict) => (site, Sum.inr (roster, verdict)))
    (fun k => k.1.timers) (.fresh key, r.roster)
  match result with
  | some (roster, verdict) => ({ r with roster := roster }, verdictAnswer verdict)
  | none => (r, .nothing)

def openTarget (r : Rehearsal) (key : AddonKey) (reference : Reference) :
    Rehearsal × Option Opening.Result :=
  let (site, attempt) := Opening.start key reference r.site
  (r.setSite site).await Opening.step Opening.timers attempt

def build (r : Rehearsal) (addon : Addon) : Rehearsal × Answer :=
  match addon.desired with
  | none => (r, .verdict (.failed (.noReference addon.key)))
  | some reference =>
    match r.openTarget addon.key reference with
    | (r, some (.built handle)) =>
      let (r, displaced) := r.register addon.key handle r.site.settings.cancelGrace
      (r, .built handle.fingerprint displaced)
    | (r, some (.failed fault)) => (r, .verdict (.failed fault))
    | (r, some .crashed) => (r, .broken "injected panic")
    | (r, none) => (r, .nothing)

def observe (r : Rehearsal) (name : String) : Rehearsal × Answer :=
  match r.assignment with
  | none => (r, .nothing)
  | some assignment =>
    match assignment.observe name r.site with
    | (site, .inr verdict) => (r.setSite site, verdictAnswer verdict)
    | (site, .inl write) =>
      let (r, verdict) := (r.setSite site).await
        (fun (w : Write) site => w.step assignment none site) Write.timers write
      (r, (verdict.map verdictAnswer).getD .nothing)

/-- Waits for one call to the hub without a deadline. -/
def awaitCall (r : Rehearsal) (act : Act) : Rehearsal × Option Reply :=
  r.await
    (fun (call : Call) site =>
      match call.advance site.now with
      | .inr reply => some (site, .inr reply)
      | .inl next => if next = call then none else some (site, .inl next))
    Call.timers ⟨r.site.now, act⟩

/-- Opens the stream of a target, and lets the watcher run on it by itself. -/
def follow (r : Rehearsal) (reference : Reference) : Rehearsal × Answer :=
  match r.assignment with
  | none => (r, .nothing)
  | some assignment =>
    let target := reference.target
    let (act, script) := r.site.hub.opens.take
    let r := (r.onHub fun hub => { hub with opens := script })
    match (r.setSite (r.site.mark (.opened target r.site.now))).awaitCall act with
    | (r, some .granted) =>
      let (hub, feed) := r.site.hub.openConfig target
      let (site, child) := { r.site with hub := hub }.spawn
        (.bare (.start r.site.settings.retry assignment feed))
      ({ r with solo := some child }.setSite site, .nothing)
    | (r, some (.refused refusal)) =>
      (r, .verdict (.failed (refusal.fault ⟨"ns", "injected"⟩ target.text)))
    | (r, some .crashed) => (r, .broken "injected panic")
    | (r, none) => (r, .nothing)

def insertStandIn (r : Rehearsal) (key : AddonKey) (reference : Reference) (standIn : StandIn)
    (grace : Span) : Rehearsal × Answer :=
  let (site, child) := r.site.spawn (.timed (standIn.timed? r.site.now))
  let (r, displaced) := (r.setSite site).register key ⟨reference.fingerprint, child⟩ grace
  (r, .inserted displaced)

def chosen (name : Option String) (feed : Feed) : Bool :=
  match feed.topic with
  | none => false
  | some target => name.all (· = target.name)

def isAddonFeed (feed : Feed) : Bool :=
  feed.topic.isNone

def interruption : Signal :=
  .error (.unknownResource "injected")

def interrupt (r : Rehearsal) (choose : Feed → Bool) : Rehearsal :=
  r.onHub fun hub => { hub with
    feeds := hub.feeds.map fun feed => if choose feed then feed.push interruption else feed }

def putAddon (r : Rehearsal) (document : Json) (silent : Bool) : Rehearsal × Answer :=
  match Addon.decode document with
  | .error _ => (r, .undecodable)
  | .ok addon =>
    (r.onHub fun hub =>
      let hub := hub.storeAddon addon
      if silent then hub else hub.announceAddon addon.objectName true, .nothing)

def putConfig (r : Rehearsal) (reference : Reference) (generation : Option Generation)
    (silent : Bool) : Rehearsal :=
  let target := reference.target
  r.onHub fun hub =>
    let hub := hub.storeConfig
      ⟨target.group, target.version, target.resource, target.objectName, generation⟩
    if silent then hub else hub.announceConfig target target.objectName true

def deleteConfig (r : Rehearsal) (reference : Reference) (silent : Bool) : Rehearsal :=
  let target := reference.target
  r.onHub fun hub =>
    let hub := hub.dropConfig target
    if silent then hub else hub.announceConfig target target.objectName false

def script (acts : List Act) (standard : Option Act) (before : Script) : Script :=
  ⟨acts, standard.getD before.standard⟩

mutual

/-- Performs one step, and no more of the tasks than the step itself waits for. -/
def perform (r : Rehearsal) : Step → Rehearsal × Answer
  | .putAddon document silent => r.putAddon document silent
  | .deleteAddon object silent =>
    (r.onHub fun hub =>
      let hub := hub.dropAddon object
      if silent then hub else hub.announceAddon object false, .nothing)
  | .addonEvent sighting =>
    (r.onHub fun hub => hub.announceAddon sighting.object sighting.present, .nothing)
  | .addonStreamError => (r.interrupt isAddonFeed, .nothing)
  | .addonStreamEnd => (r.onHub fun hub => hub.closeFeeds isAddonFeed, .nothing)
  | .putConfig reference generation silent => (r.putConfig reference generation silent, .nothing)
  | .deleteConfig reference silent => (r.deleteConfig reference silent, .nothing)
  | .configEvent reference sighting =>
    (r.onHub fun hub => hub.announceConfig reference.target sighting.object sighting.present,
      .nothing)
  | .configStreamError name => (r.interrupt (chosen name), .nothing)
  | .configStreamEnd name => (r.onHub fun hub => hub.closeFeeds (chosen name), .nothing)
  | .writes acts standard =>
    (r.onHub fun hub => { hub with writes := script acts standard hub.writes }, .nothing)
  | .opens acts standard =>
    (r.onHub fun hub => { hub with opens := script acts standard hub.opens }, .nothing)
  | .addonsOpen act => (r.onHub fun hub => { hub with addonsOpen := act }, .nothing)
  | .faultyReads count => (r.onHub fun hub => { hub with faultyReads := count }, .nothing)
  | .readAddon object => (r, .addon (r.site.hub.addon? object))
  | .wait 0 => (r, .nothing)
  | .wait ms => (r.sleep ms, .nothing)
  | .halt => (r.setSite { r.site with halted := true }, .nothing)
  | .observe name => r.observe name
  | .follow reference => r.follow reference
  | .sync key => r.sync key
  | .build document =>
    match Addon.decode document with
    | .error _ => (r, .undecodable)
    | .ok addon => r.build addon
  | .insert key reference standIn grace => r.insertStandIn key reference standIn grace
  | .get key => (r, .standing ((r.roster.get? key).map r.standing))
  | .isCurrent key reference =>
    (r, .flag ((r.roster.get? key).map (·.isCurrent r.site reference.fingerprint)))
  | .trigger key =>
    match r.roster.get? key with
    | none => (r, .standing none)
    | some handle =>
      let r := r.setSite (r.site.fire handle.child)
      (r, .standing (some (r.standing handle)))
  | .cancel key grace =>
    match r.roster.remove key with
    | (none, _) => (r, .stopped none)
    | (some handle, roster) =>
      let (r, stopped) := { r with roster := roster }.cancelHandle handle grace
      (r, .stopped (some stopped))
  | .forget key =>
    ({ r with roster := (r.roster.remove key).2 },
      .standing ((r.roster.get? key).map r.standing))
  | .shutdown grace => (r.shutRoster grace, .shutDown)
  | .start => ({ r with supervision := { r.supervision with lead := .fresh } }, .nothing)
  | .batch steps =>
    let (r, answers) := r.performAll steps
    (r, .many answers)

/-- Performs steps one behind the other. -/
def performAll (r : Rehearsal) : List Step → Rehearsal × List Answer
  | [] => (r, [])
  | step :: rest =>
    let (r, answer) := r.perform step
    let (r, answers) := r.performAll rest
    (r, answer :: answers)

end

def verdictOfLead : Lead → Option Answer
  | .ended verdict => some (.verdict verdict)
  | .broken message => some (.broken message)
  | _ => none

/-- How the task that was started stands: not there, running, or ended with an answer. -/
def outcome (r : Rehearsal) (s : Supervision) : Option (Option Answer) :=
  match r.solo with
  | some child =>
    some ((s.site.children[child]?).bind fun c =>
      match c.condition with
      | .running => none
      | .crashed => some (.broken "injected panic")
      | _ => some (.verdict .done))
  | none =>
    match s.lead with
    | .absent => none
    | lead => some (verdictOfLead lead)

/-- Cancels the scope, shuts the roster down, and waits for the task that was started. -/
def conclude (r : Rehearsal) : Rehearsal × Answer :=
  let r := r.setSite { r.site with halted := true }
  let r := r.shutRoster r.site.settings.cancelGrace
  match r.outcome r.supervision with
  | none => (r, .nothing)
  | some _ =>
    let (supervision, answer) := Supervision.clockwork.await patience
      (fun (_ : Unit) s => ((r.outcome s).bind id).map fun answer => (s, Sum.inr answer))
      (fun _ => []) patience () r.supervision
    ({ r with supervision := supervision }, answer.getD .nothing)

end Rehearsal

end AddonWatch

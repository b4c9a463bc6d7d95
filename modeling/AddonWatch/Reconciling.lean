import AddonWatch.Roster

namespace AddonWatch

/-- A subscription that is being opened for an addon. -/
structure Opening where
  assignment : Assignment
  call : Call
  deadline : Nat
deriving Inhabited

namespace Opening

/-- Asks the hub for the object that the reference points at. -/
def start (key : AddonKey) (reference : Reference) (site : Site) : Site × Opening :=
  let (act, script) := site.hub.opens.take
  ({ site with hub := { site.hub with opens := script } }.mark (.opened reference.target site.now),
    ⟨⟨key, reference.fingerprint, reference.target⟩, ⟨site.now, act⟩,
      site.now + site.settings.callTimeout.millis⟩)

/-- A watcher starts to run on the stream that the hub has opened. -/
def begin (o : Opening) (site : Site) : Site × Handle :=
  let (hub, feed) := site.hub.openConfig o.assignment.target
  let (site, child) := { site with hub := hub }.spawn
    (.guarded (.start site.settings.retry o.assignment feed))
  (site, ⟨o.assignment.fingerprint, child⟩)

/-- How an attempt to bring up a watcher has ended. -/
inductive Result where
  | built (handle : Handle)
  | failed (fault : Fault)
  | crashed

def fails (o : Opening) (fault : Fault) : Result :=
  .failed (.build o.assignment.fingerprint fault)

/-- Goes on as far as it can now, if it can. Without an open stream nothing is left running. -/
def step (o : Opening) (site : Site) : Option (Site × (Opening ⊕ Result)) :=
  match o.call.advance site.now with
  | .inr .granted =>
    let (site, handle) := o.begin site
    some (site, .inr (.built handle))
  | .inr (.refused refusal) =>
    some (site, .inr (o.fails (refusal.fault ⟨"ns", "injected"⟩ o.assignment.target.text)))
  | .inr .crashed => some (site, .inr .crashed)
  | .inl call =>
    if o.deadline ≤ site.now then
      some (site, .inr (o.fails (.timeout site.settings.callTimeout)))
    else if call = o.call then none
    else some (site, .inl { o with call := call })

def timers (o : Opening) : List Nat :=
  o.deadline :: o.call.timers

end Opening

/-- Where the reconciliation of an addon waits: nowhere yet, for a watcher that is not wanted any
more, for one that another is to follow, or for the subscription of the new one. -/
inductive Reconciling where
  | fresh (key : String)
  | stopping (settling : Settling)
  | replacing (key : AddonKey) (addon : Addon) (reference : Reference) (settling : Settling)
  | opening (key : AddonKey) (attempt : Opening)
deriving Inhabited

/-- What is to be done for an addon. -/
inductive Decision where
  | stop
  | keep
  | start (addon : Addon) (reference : Reference)
deriving Inhabited

/-- No watcher without a desired reference; a live one on the same object is kept; in all other
cases a new one is started. -/
def decision (addon? : Option Addon) (current : Fingerprint → Bool) : Decision :=
  match addon? with
  | none => .stop
  | some addon =>
    match addon.desired with
    | none => .stop
    | some reference =>
      if current reference.fingerprint then .keep else .start addon reference

namespace Reconciling

abbrev Outcome := Site × Roster × (Reconciling ⊕ Verdict)

/-- Takes the watcher of an unwanted addon out and waits for it. -/
def stop (key : AddonKey) (roster : Roster) (site : Site) : Outcome :=
  match roster.remove key with
  | (none, roster) => (site, roster, .inr .done)
  | (some handle, roster) =>
    let name := handle.fingerprint.text
    let site := (site.log .info ("Stopping config watcher of addon " ++ key.text ++ " on " ++
      name)).note .stopped key ("stopped watching " ++ name)
    let (site, settling) := handle.cancel site.settings.cancelGrace site
    (site, roster, .inl (.stopping settling))

/-- The addon is opened under its own key. -/
def openFor (key : AddonKey) (addon : Addon) (reference : Reference) (roster : Roster)
    (site : Site) : Outcome :=
  let (site, attempt) := Opening.start addon.key reference site
  (site, roster, .inl (.opening key attempt))

/-- Says why a watcher is replaced; one on the same object has ended by itself, which is no
event. -/
def announceReplacement (key : AddonKey) (old new : Fingerprint) (site : Site) : Site :=
  if old = new then
    site.log .warn ("Config watcher of addon " ++ key.text ++ " exited, restarting on " ++ new.text)
  else
    (site.log .info ("Config reference of addon " ++ key.text ++ " changed from " ++ old.text ++
      " to " ++ new.text)).note .changed key ("config reference changed from " ++ old.text ++
      " to " ++ new.text)

/-- The old watcher goes before the new one is asked for, so that two never write at once. -/
def replace (key : AddonKey) (addon : Addon) (reference : Reference) (roster : Roster)
    (site : Site) : Outcome :=
  match roster.remove key with
  | (none, roster) => openFor key addon reference roster site
  | (some handle, roster) =>
    let site := announceReplacement key handle.fingerprint reference.fingerprint site
    let (site, settling) := handle.cancel site.settings.cancelGrace site
    (site, roster, .inl (.replacing key addon reference settling))

/-- Reads the key and the stored addon, and begins what they call for. -/
def start (text : String) (roster : Roster) (site : Site) : Outcome :=
  match AddonKey.parse text with
  | .error fault => (site, roster, .inr (.failed fault))
  | .ok key =>
    match decision (site.hub.addon? key.objectName) fun fingerprint =>
        (roster.get? key).any (·.isCurrent site fingerprint) with
    | .stop => stop key roster site
    | .keep => (site, roster, .inr .done)
    | .start addon reference => replace key addon reference roster site

/-- Registers the new watcher. The key has been taken out before, so nothing is displaced. -/
def register (key : AddonKey) (handle : Handle) (roster : Roster) (site : Site) : Outcome :=
  let name := handle.fingerprint.text
  let site := (site.log .info ("Starting config watcher of addon " ++ key.text ++ " on " ++
    name)).note .started key ("watching " ++ name)
  (site, (roster.insert key handle).2, .inr .done)

/-- Goes on from one place of waiting to the next, if it can. -/
def step (r : Reconciling) (roster : Roster) (site : Site) : Option Outcome :=
  match r with
  | .fresh text => some (start text roster site)
  | .stopping settling =>
    (settling.step site).map fun (site, _) => (site, roster, .inr .done)
  | .replacing key addon reference settling =>
    (settling.step site).map fun (site, _) => openFor key addon reference roster site
  | .opening key attempt =>
    (attempt.step site).map fun
      | (site, .inl next) => (site, roster, .inl (.opening key next))
      | (site, .inr (.built handle)) => register key handle roster site
      | (site, .inr (.failed fault)) => (site, roster, .inr (.failed fault))
      | (site, .inr .crashed) => (site, roster, .inr .crashed)

def timers : Reconciling → List Nat
  | .fresh _ => []
  | .stopping settling => settling.timers
  | .replacing _ _ _ settling => settling.timers
  | .opening _ attempt => attempt.timers

end Reconciling

end AddonWatch

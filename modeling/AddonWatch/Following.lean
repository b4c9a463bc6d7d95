import AddonWatch.Observation

namespace AddonWatch

namespace Follower

/-- The greatest number of sightings that can wait to be applied. -/
def mostUnapplied : Nat := 4294967295

def start (policy : RetryPolicy) (a : Assignment) (feed : Nat) : Follower where
  assignment := a
  feed := feed
  backoff := policy.start

/-- One more sighting waits; behind a pending retry it waits its turn. -/
def sighted (f : Follower) (s : Sighting) : Follower :=
  { f with
    name := s.object.name
    unapplied := min (f.unapplied + 1) mostUnapplied
    phase := if f.retryAt.isSome then .listening else .applying }

/-- What the outcome of one application means for those still waiting: a success takes one away and
ends the run of failures, a failure puts all of them off. The watcher breaks down if the clock
cannot tell until when. -/
def concluded (f : Follower) (site : Site) : Verdict → Site × (Follower ⊕ Ending)
  | .done =>
    (site, .inl { f with
      unapplied := f.unapplied - 1, backoff := site.settings.retry.start, phase := .applying })
  | .failed fault =>
    let (delay, backoff) := site.settings.retry.next f.backoff
    (site.log .warn ("Cannot update addon " ++ f.assignment.key.text ++ " from " ++ f.name ++
        ", retrying in " ++ delay.text ++ ": " ++ fault.message),
      if site.settings.reaches site.now delay then
        .inl { f with
          backoff := backoff, retryAt := some (site.now + delay.millis), phase := .listening }
      else .inr .crashes)
  | .crashed => (site, .inr .crashes)

def applied (f : Follower) : Site × (Write ⊕ Verdict) → Site × (Follower ⊕ Ending)
  | (site, .inl write) => (site, .inl { f with phase := .writing write })
  | (site, .inr verdict) => f.concluded site verdict

def received (f : Follower) (site : Site) : Hub.Arrival × Hub → Option (Site × (Follower ⊕ Ending))
  | (.signal (.ok sighting), hub) => some ({ site with hub := hub }, .inl (f.sighted sighting))
  | (.signal (.error fault), hub) =>
    some ({ site with hub := hub }.log .warn ("Config watch of addon " ++ f.assignment.key.text ++
      " failed: " ++ fault.message), .inl f)
  | (.ended, _) =>
    some (site.log .warn ("Config watch of addon " ++ f.assignment.key.text ++ " ended"),
      .inr .returns)
  | (.quiet, _) => none

/-- Goes on from one place of waiting to the next, if it can. Cancellation comes before all else,
a due retry before further signals. -/
def step (f : Follower) (i : Nat) (cancelled : Bool) (site : Site) :
    Option (Site × (Follower ⊕ Ending)) :=
  if cancelled then some (site, .inr .returns)
  else match f.phase with
    | .listening =>
      if f.retryAt.any (· ≤ site.now) then
        some (site, .inl { f with retryAt := none, phase := .applying })
      else f.received site (site.hub.receive f.feed)
    | .applying =>
      if f.unapplied = 0 then some (site, .inl { f with phase := .listening })
      else some (f.applied (f.assignment.observe f.name site))
    | .writing write =>
      (write.step f.assignment (some i) site).map f.applied

def timers (f : Follower) : List Nat :=
  match f.phase with
  | .listening => f.retryAt.toList
  | .applying => []
  | .writing write => write.timers

end Follower

namespace Timed

/-- Goes on if its end has come, or if it has just been cancelled and reacts to that: it then ends
a set time from now, unless its end comes before. -/
def step (t : Timed) (cancelled : Bool) (now : Nat) : Option (Timed ⊕ Ending) :=
  match t.endsAt with
  | some (time, ending) =>
    if time ≤ now then some (.inr ending) else reaction t
  | none => reaction t
where
  reaction (t : Timed) : Option (Timed ⊕ Ending) :=
    match cancelled, t.onCancel with
    | true, some (ms, ending) =>
      match t.endsAt with
      | some (time, other) =>
        if time ≤ now + ms then some (.inl ⟨some (time, other), none⟩)
        else some (.inl ⟨some (now + ms, ending), none⟩)
      | none => some (.inl ⟨some (now + ms, ending), none⟩)
    | _, _ => none

def timers (t : Timed) : List Nat :=
  (t.endsAt.map Prod.fst).toList

end Timed

namespace Site

/-- A watcher that ends although nothing cancelled it counts as cancelled from then on, and only
then its key is reported. -/
def reportExit (site : Site) (i : Nat) (key : AddonKey) : Site :=
  match site.children[i]? with
  | some child =>
    if site.isCancelled child then site
    else
      let site := (site.log .warn ("Config watcher of addon " ++ key.text ++
        " stopped unexpectedly")).fire i
      if site.reportsExits then { site with exits := site.exits ++ [key.text] } else site
  | none => site

def endGuarded (site : Site) (i : Nat) (key : AddonKey) (ending : Ending) : Site :=
  let site := site.finish i .returned
  let site := match ending with
    | .returns => site
    | .crashes => site.log .error ("Config watcher of addon " ++ key.text ++ " panicked")
  site.reportExit i key

def endBare (site : Site) (i : Nat) (ending : Ending) : Site :=
  site.finish i (match ending with | .returns => .returned | .crashes => .crashed)

/-- The next step of a child task, if it is not over and need not wait. -/
def stepChild (site : Site) (i : Nat) : Option Site := do
  let child ← site.children[i]?
  if child.isFinished then none
  else match child.body with
    | .guarded follower =>
      (follower.step i (site.isCancelled child) site).map fun
        | (site, .inl next) => site.setChild i (·.withFollower next)
        | (site, .inr ending) => site.endGuarded i follower.assignment.key ending
    | .bare follower =>
      (follower.step i (site.isCancelled child) site).map fun
        | (site, .inl next) => site.setChild i (·.withFollower next)
        | (site, .inr ending) => site.endBare i ending
    | .timed timed =>
      (timed.step (site.isCancelled child) site.now).map fun
        | .inl next => site.setChild i fun child => { child with body := .timed next }
        | .inr ending => site.endBare i ending

def childTimers (site : Site) : List Nat :=
  site.children.flatMap fun child =>
    if child.isFinished then [] else match child.body with
    | .guarded follower => follower.timers
    | .bare follower => follower.timers
    | .timed timed => timed.timers

end Site

end AddonWatch

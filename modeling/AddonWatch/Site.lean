import AddonWatch.Child
import AddonWatch.Hub.Store
import AddonWatch.Notice
import AddonWatch.Settings

namespace AddonWatch

/-- What can be seen to have happened. -/
inductive Mark where
  | opened (target : Target) (time : Nat)
  | wrote (child : Option Nat) (addon : Addon) (time : Nat)
  | noted (notice : Notice) (key : AddonKey) (note : String) (time : Nat)
  | logged (level : Level) (text : String)
deriving Inhabited

/-- What all tasks share: the clock in milliseconds, the hub, the scope that all watchers belong
to, every child task ever spawned, the keys of watchers that ended by themselves, and what has
happened so far, the latest first. -/
structure Site where
  settings : Settings := {}
  reportsExits : Bool := true
  now : Nat := 0
  hub : Hub := {}
  halted : Bool := false
  children : List Child := []
  exits : List String := []
  trace : List Mark := []
deriving Inhabited

namespace Site

def mark (site : Site) (m : Mark) : Site :=
  { site with trace := m :: site.trace }

def log (site : Site) (level : Level) (text : String) : Site :=
  site.mark (.logged level text)

def note (site : Site) (notice : Notice) (key : AddonKey) (text : String) : Site :=
  site.mark (.noted notice key text site.now)

/-- A child is cancelled by its own trigger or with the scope. -/
def isCancelled (site : Site) (child : Child) : Bool :=
  child.fired || site.halted

def setChild (site : Site) (i : Nat) (change : Child → Child) : Site :=
  { site with children := site.children.modify i change }

def fire (site : Site) (i : Nat) : Site :=
  site.setChild i fun child => { child with fired := true }

def spawn (site : Site) (body : Body) : Site × Nat :=
  ({ site with children := site.children ++ [{ body := body }] }, site.children.length)

/-- The task is over, and with it its hold on a stream. -/
def finish (site : Site) (i : Nat) (condition : Condition) : Site :=
  let hub := match site.children[i]?.bind Child.feed? with
    | some feed => site.hub.releaseFeed feed
    | none => site.hub
  { site with hub := hub }.setChild i fun child => { child with condition := condition }

/-- A task that runs is stopped for good where it waits. -/
def abort (site : Site) (i : Nat) : Site :=
  match site.children[i]? with
  | some child => if child.isFinished then site else site.finish i .aborted
  | none => site

def isFinished (site : Site) (i : Nat) : Bool :=
  (site.children[i]?.map Child.isFinished).getD true

end Site

end AddonWatch

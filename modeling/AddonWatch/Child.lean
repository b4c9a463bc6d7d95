import AddonWatch.Addon.Document
import AddonWatch.Hub.Act
import AddonWatch.Retry

namespace AddonWatch

/-- A status write under way: the call, the moment at which it is given up, the addon as it is to
be, and the generation that is new in it. -/
structure Write where
  call : Call
  deadline : Nat
  addon : Addon
  observed : Generation
deriving Inhabited

/-- Where a follower waits: for signals and its retry, before the next sighting that is not yet
applied, or for a write. -/
inductive Phase where
  | listening
  | applying
  | writing (write : Write)
deriving Inhabited

/-- Whose addon is kept up to date, and with which object. -/
structure Assignment where
  key : AddonKey
  fingerprint : Fingerprint
  target : Target
deriving DecidableEq, Repr, Inhabited

/-- The watcher of one configuration object. It counts the sightings that it has not applied yet
and keeps the name of the last one. -/
structure Follower where
  assignment : Assignment
  feed : Nat
  backoff : Backoff
  name : String := ""
  unapplied : Nat := 0
  retryAt : Option Nat := none
  phase : Phase := .listening
deriving Inhabited

/-- How a task ends by itself. -/
inductive Ending where
  | returns
  | crashes
deriving DecidableEq, Repr, Inhabited

/-- A task that ends at a set moment, or a set time behind its cancel trigger, or never. -/
structure Timed where
  endsAt : Option (Nat × Ending) := none
  onCancel : Option (Nat × Ending) := none
deriving DecidableEq, Repr, Inhabited

/-- What a child task runs: a watcher that reports its own end, a watcher alone, or a timed task. -/
inductive Body where
  | guarded (follower : Follower)
  | bare (follower : Follower)
  | timed (timed : Timed)
deriving Inhabited

inductive Condition where
  | running
  | returned
  | crashed
  | aborted
deriving DecidableEq, Repr, Inhabited

/-- A task with a cancel trigger. -/
structure Child where
  body : Body
  fired : Bool := false
  condition : Condition := .running
deriving Inhabited

namespace Child

def follower? (child : Child) : Option Follower :=
  match child.body with
  | .guarded follower => some follower
  | .bare follower => some follower
  | .timed _ => none

def isFinished (child : Child) : Bool :=
  child.condition ≠ .running

/-- The stream that goes when the task goes. -/
def feed? (child : Child) : Option Nat :=
  child.follower?.map Follower.feed

def withFollower (child : Child) (follower : Follower) : Child :=
  match child.body with
  | .guarded _ => { child with body := .guarded follower }
  | .bare _ => { child with body := .bare follower }
  | .timed _ => child

end Child

end AddonWatch

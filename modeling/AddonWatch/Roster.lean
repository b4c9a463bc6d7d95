import AddonWatch.Following

namespace AddonWatch

/-- A registered child task, and the identity of the object it was started for. -/
structure Handle where
  fingerprint : Fingerprint
  child : Nat
deriving DecidableEq, Repr, Inhabited

namespace Handle

/-- The child runs and nothing has told it to stop. -/
def isLive (handle : Handle) (site : Site) : Bool :=
  match site.children[handle.child]? with
  | some child => !site.isCancelled child && !child.isFinished
  | none => false

def isCurrent (handle : Handle) (site : Site) (fingerprint : Fingerprint) : Bool :=
  handle.fingerprint = fingerprint && handle.isLive site

end Handle

/-- Waits for a cancelled child, and aborts it when the time is over. -/
structure Settling where
  handle : Handle
  grace : Span
  deadline : Nat
deriving DecidableEq, Repr, Inhabited

/-- Fires the cancel trigger and begins to wait. -/
def Handle.cancel (handle : Handle) (grace : Span) (site : Site) : Site × Settling :=
  (site.fire handle.child, ⟨handle, grace, site.now + grace.millis⟩)

namespace Settling

/-- Whether the child has ended in time, as soon as that is known. An end at the deadline still
counts, and a child that runs on is aborted. -/
def step (s : Settling) (site : Site) : Option (Site × Bool) :=
  let name := s.handle.fingerprint.text
  match site.children[s.handle.child]?.map Child.condition with
  | some .running =>
    if s.deadline ≤ site.now then
      some ((site.log .warn ("Config watcher for " ++ name ++ " did not stop within " ++
        s.grace.text ++ ", aborting")).abort s.handle.child, false)
    else none
  | some .crashed => some (site.log .error ("Config watcher for " ++ name ++ " panicked"), true)
  | _ => some (site, true)

def timers (s : Settling) : List Nat :=
  [s.deadline]

end Settling

/-- The registered children by addon, at most one each. -/
structure Roster where
  entries : List (AddonKey × Handle) := []
deriving DecidableEq, Repr, Inhabited

namespace Roster

def get? (roster : Roster) (key : AddonKey) : Option Handle :=
  roster.entries.lookup key

def erase (roster : Roster) (key : AddonKey) : Roster :=
  ⟨roster.entries.filter fun e => e.1 ≠ key⟩

/-- Takes the handle of that key out. -/
def remove (roster : Roster) (key : AddonKey) : Option Handle × Roster :=
  (roster.get? key, roster.erase key)

/-- Registers a handle and gives back the one that it displaces. -/
def insert (roster : Roster) (key : AddonKey) (handle : Handle) : Option Handle × Roster :=
  (roster.get? key, ⟨(key, handle) :: (roster.erase key).entries⟩)

def keys (roster : Roster) : List AddonKey :=
  roster.entries.map Prod.fst

def size (roster : Roster) : Nat :=
  roster.entries.length

end Roster

/-- An order in which the keys of a roster are gone through. It may depend on whatever has happened
so far. -/
structure Arrangement where
  keys : Site → Roster → List AddonKey
  perm : ∀ site roster, (keys site roster).Perm roster.keys

instance : Inhabited Arrangement :=
  ⟨⟨fun _ => Roster.keys, fun _ roster => .refl roster.keys⟩⟩

/-- Waits for all children of a roster at once. -/
structure Closing where
  pending : List (AddonKey × Settling) := []
deriving DecidableEq, Repr, Inhabited

namespace Closing

/-- Fires every cancel trigger before it waits for any child. -/
def start (roster : Roster) (grace : Span) (site : Site) : Site × Closing :=
  (roster.entries.foldl (fun site e => site.fire e.2.child) site,
    ⟨roster.entries.map fun e => (e.1, ⟨e.2, grace, site.now + grace.millis⟩)⟩)

/-- Settles the first child for which that is possible, and keeps the others. -/
def settleOne (site : Site) :
    List (AddonKey × Settling) → Option (Site × List (AddonKey × Settling))
  | [] => none
  | (key, settling) :: rest =>
    match settling.step site with
    | some (site, true) => some (site, rest)
    | some (site, false) =>
      some (site.log .warn ("Abandoned config watcher of addon " ++ key.text ++
        " during shutdown"), rest)
    | none => (settleOne site rest).map fun (site, rest) => (site, (key, settling) :: rest)

/-- Goes on as far as one child, or ends when none is left. -/
def step (c : Closing) (site : Site) : Option (Site × Option Closing) :=
  if c.pending.isEmpty then some (site, none)
  else (settleOne site c.pending).map fun (site, rest) => (site, some ⟨rest⟩)

def timers (c : Closing) : List Nat :=
  c.pending.flatMap fun e => e.2.timers

end Closing

end AddonWatch

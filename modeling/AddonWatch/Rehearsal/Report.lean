import AddonWatch.Rehearsal.Performance

namespace AddonWatch

/-- What there is to see of a rehearsal behind a step: the state, and what has happened since the
report before. -/
structure Report where
  time : Nat
  answer : Answer
  writes : List (String × Addon × Nat)
  opens : List (String × Nat)
  notices : List (String × Notice × String × Nat)
  exits : List String
  logs : List (Level × String)
  watches : List String
  children : List (AddonKey × Standing)
  alive : Nat
  running : Option Bool
deriving Inhabited

namespace Rehearsal

def byText {α : Type} (items : List (String × α)) : List (String × α) :=
  items.mergeSort fun a b => !(b.1 < a.1)

def sorted (texts : List String) : List String :=
  texts.mergeSort fun a b => !(b < a)

def logged (noticesAreLogged : Bool) : Mark → Option (Level × String)
  | .logged level text => some (level, text)
  | .noted notice key note _ =>
    if noticesAreLogged then some (.info, notice.line key note) else none
  | _ => none

def noticed (noticesAreLogged : Bool) : Mark → Option (String × Notice × String × Nat)
  | .noted notice key note time =>
    if noticesAreLogged then none else some (key.text, notice, note, time)
  | _ => none

def written : Mark → Option (String × Addon × Nat)
  | .wrote _ addon time => some (addon.key.text, addon, time)
  | _ => none

def openedTarget : Mark → Option (String × Nat)
  | .opened target time => some (target.text, time)
  | _ => none

def watches (site : Site) : List String :=
  sorted (site.hub.feeds.filterMap fun feed =>
    if feed.held && !feed.closed then feed.topic.map Target.text else none)

def standings (r : Rehearsal) : List (AddonKey × Standing) :=
  (r.roster.entries.map fun e => (e.1, r.standing e.2)).mergeSort fun a b => !b.1.before a.1

/-- Reports what can be seen, and forgets what has been reported. -/
def report (r : Rehearsal) (noticesAreLogged : Bool) (answer : Answer) : Rehearsal × Report :=
  let site := r.site
  let marks := site.trace.reverse
  let exits := if r.supervision.lead matches .absent then [] else site.exits
  (r.setSite { site with trace := [], exits := exits },
    { time := site.now
      answer := answer
      writes := byText (marks.filterMap written)
      opens := byText (marks.filterMap openedTarget)
      notices := byText (marks.filterMap (noticed noticesAreLogged))
      exits := sorted site.exits
      logs := marks.filterMap (logged noticesAreLogged)
      watches := watches site
      children := r.standings
      alive := site.children.countP fun child => !child.isFinished
      running := (r.outcome r.supervision).map Option.isNone })

/-- Performs the steps one by one; behind each, all tasks go on until they wait. -/
def reports (noticesAreLogged : Bool) : Rehearsal → List Step → List Report × Rehearsal
  | r, [] => ([], r)
  | r, step :: rest =>
    let (r, answer) := r.perform step
    let (r, report) := r.settle.report noticesAreLogged answer
    let (more, r) := reports noticesAreLogged r rest
    (report :: more, r)

/-- A whole rehearsal with its last report, behind the end of everything. -/
def run (noticesAreLogged : Bool) (r : Rehearsal) (steps : List Step) : List Report × Report :=
  let (found, r) := reports noticesAreLogged r steps
  let (r, answer) := r.conclude
  (found, (r.settle.report noticesAreLogged answer).2)

end Rehearsal

end AddonWatch

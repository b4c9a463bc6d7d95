import AddonWatch.Cluster.Catalogue
import AddonWatch.Cluster.Change
import AddonWatch.Cluster.Replica
import AddonWatch.Cluster.Page

namespace AddonWatch.Cluster

/-- How far following the objects of a type has come: their pages are being asked for, where those
found so far are kept; all of them are known as of a version; what happened after a version is
being told line by line; or a request is never answered. -/
inductive Phase (α : Type) where
  | listing (token : Option String) (found : List α)
  | listed (version : String)
  | watching (version : String) (lines : List String)
  | unanswered

/-- What one step brings. -/
inductive Outcome (α : Type) where
  | nothing
  | silence
  | interrupted (fault : FollowFault)
  | news (news : News α)

/-- What a reader hears next: an item, nothing for good, or that the copy has broken down over an
object that does not say its name. -/
inductive Heard where
  | item (signal : Signal)
  | silence
  | breakdown
deriving Inhabited

/-- What is said of a breakdown. -/
def Heard.breakdownText : String := ".metadata.name missing"

/-- A step that is followed by another one before anybody hears of it. -/
def Outcome.goesOn {α : Type} : Outcome α → Bool
  | nothing => true
  | news _ => true
  | _ => false

/-- Objects of a type that are followed: where and how they are asked for, how far this has come,
the copy of them, and the sightings that have not been passed on yet. -/
structure Subscription (α : Type) where
  format : Format α
  location : String
  selection : Selection
  phase : Phase α := .listing none []
  replica : Replica α := {}
  pending : List Sighting := []

namespace Phase

variable {α : Type}

/-- After a page comes the next one; after the last one everything is known. Whatever goes wrong,
the first page is asked for again. -/
def afterPage (found : List α) :
    Option (Except RequestFault (Page α)) → Outcome α × Phase α
  | none => (.silence, .unanswered)
  | some (.error cause) => (.interrupted (.listing cause), .listing none [])
  | some (.ok page) =>
    let found := found ++ page.objects
    match page.head.token, page.head.version with
    | some token, _ => (.nothing, .listing (some token) found)
    | none, some version => (.news (.replaced found), .listed version)
    | none, none => (.interrupted .noResourceVersion, .listing none [])

/-- The lines of a watch are read whatever its status is. -/
def afterStart (version : String) :
    Option (Except RequestFault (Nat × String)) → Outcome α × Phase α
  | none => (.silence, .unanswered)
  | some (.error cause) => (.interrupted (.starting cause), .listed version)
  | some (.ok (_, body)) => (.nothing, .watching version (lines body))

/-- A change of an object moves on to the object's version; without one nothing can be told of
what comes next, and everything is asked for anew. -/
def afterChange (format : Format α) (object : α) (news : News α) (lines : List String) :
    Outcome α × Phase α :=
  match format.version? object with
  | some version => (.news news, .watching version lines)
  | none => (.interrupted .noResourceVersion, .listing none [])

/-- The status of a version that the cluster no longer knows. -/
def goneCode : Nat := 410

/-- Behind the last line the watch begins anew from the version that it has come to. -/
def afterLine (format : Format α) (version : String) : List String → Outcome α × Phase α
  | [] => (.nothing, .listed version)
  | line :: lines =>
    match Change.ofLine? format line with
    | none => (.nothing, .watching version lines)
    | some (.error cause) => (.interrupted (.watching cause), .watching version lines)
    | some (.ok (.put object)) => afterChange format object (.put object) lines
    | some (.ok (.removed object)) => afterChange format object (.removed object) lines
    | some (.ok (.reached version)) => (.nothing, .watching version lines)
    | some (.ok (.problem found)) =>
      (.interrupted (.reported found.code found.reason),
        if found.code = goneCode then .listing none [] else .watching version lines)

/-- How many lines may still be read, and the end behind them. -/
def effort : Phase α → Nat
  | watching _ lines => lines.length + 1
  | _ => 0

theorem effort_afterPage {found : List α} {answer : Option (Except RequestFault (Page α))}
    (hgo : (afterPage found answer).1.goesOn) :
    (∃ page, answer = some (.ok page)) ∧ (afterPage found answer).2.effort = 0 := by
  match answer with
  | none => simp [afterPage, Outcome.goesOn] at hgo
  | some (.error cause) => simp [afterPage, Outcome.goesOn] at hgo
  | some (.ok page) =>
    refine ⟨⟨page, rfl⟩, ?_⟩
    simp only [afterPage]
    split <;> rfl

theorem effort_afterStart {version : String}
    {answer : Option (Except RequestFault (Nat × String))}
    (hgo : (afterStart (α := α) version answer).1.goesOn) :
    ∃ status body, answer = some (.ok (status, body)) ∧
      (afterStart (α := α) version answer).2.effort = (lines body).length + 1 := by
  match answer with
  | none => simp [afterStart, Outcome.goesOn] at hgo
  | some (.error cause) => simp [afterStart, Outcome.goesOn] at hgo
  | some (.ok (status, body)) => exact ⟨status, body, rfl, rfl⟩

theorem effort_afterChange_le (format : Format α) (object : α) (news : News α)
    (lines : List String) :
    (afterChange format object news lines).2.effort ≤ lines.length + 1 := by
  unfold afterChange
  split <;> simp [effort]

theorem effort_afterLine_lt (format : Format α) (version : String) (lines : List String) :
    (afterLine format version lines).2.effort < lines.length + 1 := by
  match lines with
  | [] => simp [afterLine, effort]
  | line :: rest =>
    have hput := fun object => effort_afterChange_le format object (.put object) rest
    have hremoved := fun object => effort_afterChange_le format object (.removed object) rest
    unfold afterLine
    simp only [List.length_cons]
    split
    · simp [effort]
    · simp [effort]
    · next object _ => exact Nat.lt_succ_of_le (hput object)
    · next object _ => exact Nat.lt_succ_of_le (hremoved object)
    · simp [effort]
    · simp only
      split <;> simp [effort]

end Phase

/-- More than what the phase after this response can make up for. -/
def Response.effort : Response → Nat
  | answered _ body => (lines body).length + 2
  | failed => 2

def Exchange.effort (x : Exchange) : Nat :=
  x.responses.foldr (fun response rest => response.effort + rest) 0

theorem Exchange.effort_send {draft : Draft} {x y : Exchange} {status : Nat} {body : String}
    (h : x.send draft = (some (.ok (status, body)), y)) :
    y.effort + (lines body).length + 2 ≤ x.effort := by
  unfold Exchange.send at h
  split at h
  · simp at h
  · split at h
    · simp at h
    · simp at h
    · next rest hr =>
      simp only [Prod.mk.injEq, Option.some.injEq, Except.ok.injEq] at h
      obtain ⟨⟨rfl, rfl⟩, rfl⟩ := h
      simp only [Exchange.effort, hr, List.foldr_cons, Response.effort]
      omega

theorem Exchange.effort_request {α : Type} {draft : Draft} {decode : Json → Except Flaw α}
    {x y : Exchange} {found : α} (h : x.request draft decode = (some (.ok found), y)) :
    y.effort + 2 ≤ x.effort := by
  unfold Exchange.request at h
  cases hs : x.send draft with
  | mk answer z =>
    rw [hs] at h
    match answer with
    | none => simp at h
    | some (.error cause) => simp [bind, Except.bind] at h
    | some (.ok (status, body)) =>
      obtain rfl : z = y := (Prod.mk.inj h).2
      have := Exchange.effort_send hs
      omega

namespace Subscription

variable {α : Type}

def opened (format : Format α) (location : String) (selection : Selection) : Subscription α where
  format := format
  location := location
  selection := selection

def draft (s : Subscription α) (parameters : List (String × String)) : Draft where
  address := Address.written s.location parameters

/-- Asks for a page, starts a watch or reads one line of it. -/
def step (s : Subscription α) (x : Exchange) : Outcome α × Phase α × Exchange :=
  match s.phase with
  | .listing token found =>
    let (answer, x) :=
      x.request (s.draft (s.selection.pageParameters token)) (Page.decode s.format)
    let (outcome, phase) := Phase.afterPage found answer
    (outcome, phase, x)
  | .listed version =>
    let (answer, x) := x.send (s.draft (s.selection.watchParameters version))
    let (outcome, phase) := Phase.afterStart version answer
    (outcome, phase, x)
  | .watching version lines =>
    let (outcome, phase) := Phase.afterLine s.format version lines
    (outcome, phase, x)
  | .unanswered => (.silence, .unanswered, x)

theorem effort_step {s : Subscription α} {x y : Exchange} {outcome : Outcome α}
    {phase : Phase α} (h : s.step x = (outcome, phase, y)) (hgo : outcome.goesOn) :
    phase.effort + y.effort < s.phase.effort + x.effort := by
  unfold step at h
  split at h
  · next token found hs =>
    generalize hr : x.request _ _ = r at h
    obtain ⟨answer, z⟩ := r
    simp only [Prod.mk.injEq] at h
    obtain ⟨rfl, rfl, rfl⟩ := h
    obtain ⟨⟨page, rfl⟩, he⟩ := Phase.effort_afterPage hgo
    have := Exchange.effort_request hr
    omega
  · next version hs =>
    generalize hr : x.send _ = r at h
    obtain ⟨answer, z⟩ := r
    simp only [Prod.mk.injEq] at h
    obtain ⟨rfl, rfl, rfl⟩ := h
    obtain ⟨status, body, rfl, he⟩ := Phase.effort_afterStart hgo
    have := Exchange.effort_send hr
    omega
  · next version lines hs =>
    simp only [Prod.mk.injEq] at h
    obtain ⟨rfl, rfl, rfl⟩ := h
    have := Phase.effort_afterLine_lt s.format version lines
    simp only [hs, Phase.effort]
    simp only [Phase.effort] at this
    omega
  · simp only [Prod.mk.injEq] at h
    obtain ⟨rfl, -, -⟩ := h
    simp [Outcome.goesOn] at hgo

/-- The next item for the reader, if one comes. News reach the copy before anybody is told of
them, and the copy takes no object without a name. -/
def next (s : Subscription α) (x : Exchange) : Heard × Subscription α × Exchange :=
  match s.pending with
  | sighting :: rest => (.item (.ok sighting), { s with pending := rest }, x)
  | [] =>
    match h : s.step x with
    | (.silence, phase, y) => (.silence, { s with phase := phase }, y)
    | (.interrupted fault, phase, y) =>
      (.item (.error (.follow fault)), { s with phase := phase }, y)
    | (.nothing, phase, y) =>
      have := effort_step h rfl
      next { s with phase := phase } y
    | (.news news, phase, y) =>
      have := effort_step h rfl
      if news.objects.all s.format.isNamed then
        next { s with
          phase := phase
          replica := s.replica.apply s.format news
          pending := news.sightings s.format } y
      else (.breakdown, { s with phase := phase }, y)
termination_by s.phase.effort + x.effort

end Subscription

end AddonWatch.Cluster

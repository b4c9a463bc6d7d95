import AddonWatch.Cluster.Address
import AddonWatch.Cluster.Problem
import AddonWatch.Json.Reader
import AddonWatch.Text.Quoted

namespace AddonWatch.Cluster

inductive Method where
  | get
  | post
  | put
deriving DecidableEq, Repr, Inhabited

def Method.text : Method → String
  | get => "GET"
  | post => "POST"
  | put => "PUT"

/-- A request that a cluster has received. -/
structure Request where
  method : Method
  address : Address
  body : Option Json
deriving Inhabited

/-- A request before its address is known to be one. -/
structure Draft where
  method : Method := .get
  address : String
  body : Option Json := none

def Draft.request? (draft : Draft) : Option Request :=
  (Address.ofText? draft.address).map fun address => ⟨draft.method, address, draft.body⟩

/-- What comes back for a request: a status and a body, or a failure on the way. -/
inductive Response where
  | answered (status : Nat) (body : String)
  | failed
deriving DecidableEq, Repr, Inhabited

/-- A conversation with a cluster: the requests made so far, and the responses to the next ones.
A request for which no response is left is never answered. -/
structure Exchange where
  requests : List Request := []
  responses : List Response := []
deriving Inhabited

/-- The body of an answer, unless the status is that of an error. -/
def accept (status : Nat) (body : String) : Except RequestFault String :=
  if 400 ≤ status ∧ status < 600 then
    match Json.readAs Problem.decode body with
    | some problem => .error problem.fault
    | none => .error (.refused status "Failed to parse error data" (quote body))
  else .ok body

namespace Exchange

/-- The status and body of the answer, whatever they say; nothing if no answer ever comes. -/
def send (draft : Draft) (x : Exchange) : Option (Except RequestFault (Nat × String)) × Exchange :=
  match draft.request? with
  | none => (some (.error .malformedAddress), x)
  | some request =>
    let requests := x.requests ++ [request]
    match x.responses with
    | [] => (none, { x with requests := requests })
    | .failed :: rest => (some (.error .transport), ⟨requests, rest⟩)
    | .answered status body :: rest => (some (.ok (status, body)), ⟨requests, rest⟩)

/-- A good answer is one without an error status whose body is what was asked for. -/
def decodeAnswer {α : Type} (decode : Json → Except Flaw α) (answer : Nat × String) :
    Except RequestFault α := do
  let body ← accept answer.1 answer.2
  match Json.readAs decode body with
  | some found => return found
  | none => throw .undecodable

def request {α : Type} (draft : Draft) (decode : Json → Except Flaw α) (x : Exchange) :
    Option (Except RequestFault α) × Exchange :=
  let (answer, x) := x.send draft
  (answer.map (· >>= decodeAnswer decode), x)

end Exchange

end AddonWatch.Cluster

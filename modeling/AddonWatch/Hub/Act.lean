import AddonWatch.Fault

namespace AddonWatch

/-- Why a call to the hub is refused; a conflict and a missing addon are told of the addon that is
asked about, an unserved type of the target. -/
inductive Refusal where
  | conflict
  | missing
  | unserved
  | other (fault : Fault)
deriving DecidableEq, Repr, Inhabited

def Refusal.fault (key : AddonKey) (target : String) : Refusal → Fault
  | conflict => .conflict key
  | missing => .notFound key
  | unserved => .unknownResource target
  | other fault => fault

/-- How the hub deals with one call. -/
inductive Act where
  | grant
  | refuse (refusal : Refusal)
  | hang
  | crash
  | delay (ms : Nat) (next : Act)
deriving DecidableEq, Repr, Inhabited

/-- What the caller hears in the end. -/
inductive Reply where
  | granted
  | refused (refusal : Refusal)
  | crashed
deriving DecidableEq, Repr, Inhabited

/-- A call under way: nothing happens before `due`, then `act` goes on. -/
structure Call where
  due : Nat
  act : Act
deriving DecidableEq, Repr, Inhabited

namespace Act

/-- How far a call has come at `now`, if `act` goes on at `due`. -/
def advance (now due : Nat) (act : Act) : Call ⊕ Reply :=
  if now < due then .inl ⟨due, act⟩
  else match act with
    | grant => .inr .granted
    | refuse refusal => .inr (.refused refusal)
    | hang => .inl ⟨due, .hang⟩
    | crash => .inr .crashed
    | delay ms next => next.advance now (now + ms)

end Act

namespace Call

def advance (call : Call) (now : Nat) : Call ⊕ Reply :=
  call.act.advance now call.due

/-- The next moment at which the call may go on by itself. -/
def timers (call : Call) : List Nat :=
  [call.due]

end Call

/-- The acts for the next calls, and the one for all calls after them. -/
structure Script where
  acts : List Act := []
  standard : Act := .grant
deriving DecidableEq, Repr, Inhabited

/-- An act is used up when the call begins. -/
def Script.take (script : Script) : Act × Script :=
  match script.acts with
  | act :: rest => (act, { script with acts := rest })
  | [] => (script.standard, script)

end AddonWatch

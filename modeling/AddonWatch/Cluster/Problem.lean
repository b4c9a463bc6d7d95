import AddonWatch.Addon.Decoding
import AddonWatch.Fault

namespace AddonWatch.Cluster

/-- What a cluster says about a request that it does not carry out. -/
structure Problem where
  code : Nat := 0
  reason : String := ""
  message : String := ""
deriving DecidableEq, Repr, Inhabited

namespace Problem

/-- A code of 16 bits. -/
def code? (document : Json) : Option Nat :=
  document.int?.bind fun n => if 0 ≤ n ∧ n < 65536 then some n.toNat else none

/-- Takes over one field, none of which is null. The status is read and not kept. -/
def put (found : Problem) (m : String × Json) : Except Flaw Problem :=
  match m.1 with
  | "status" => m.2.text.map fun _ => found
  | "message" => m.2.text.map fun v => { found with message := v }
  | "reason" => m.2.text.map fun v => { found with reason := v }
  | "code" => (m.2.expect code?).map fun v => { found with code := v }
  | _ => m.2.pass.map fun _ => found

/-- A problem has a status and a code, its other texts may be left out. -/
def decode (document : Json) : Except Flaw Problem := do
  let (found, given) ← document.takeFields ["status", "message", "reason", "code"] put {}
  Json.require ["status", "code"] given
  return found

def fault (problem : Problem) : RequestFault :=
  .refused problem.code problem.reason problem.message

end Problem

end AddonWatch.Cluster

import AddonWatch.Addon.Key
import AddonWatch.Addon.Reference
import AddonWatch.Text.Quoted
import AddonWatch.Text.Span

namespace AddonWatch

/-- Why a request to the cluster brought no answer that could be used. A malformed address is told
apart from a malformed group, under which nothing can be looked up. -/
inductive RequestFault where
  | refused (code : Nat) (reason message : String)
  | undecodable
  | malformedAddress
  | malformedGroup
  | transport
deriving DecidableEq, Repr, Inhabited

/-- At which point following the objects of a type was interrupted. -/
inductive FollowFault where
  | listing (cause : RequestFault)
  | starting (cause : RequestFault)
  | watching (cause : RequestFault)
  | reported (code : Nat) (reason : String)
  | noResourceVersion
deriving DecidableEq, Repr, Inhabited

/-- Everything that can go wrong in following addons and their configuration objects. -/
inductive Fault where
  | invalidKey (text : String)
  | conflict (key : AddonKey)
  | notFound (key : AddonKey)
  | timeout (deadline : Span)
  | noReference (key : AddonKey)
  | build (fingerprint : Fingerprint) (source : Fault)
  | unknownResource (text : String)
  | request (cause : RequestFault)
  | follow (cause : FollowFault)
deriving DecidableEq, Repr, Inhabited

def RequestFault.message : RequestFault → String
  | .refused code reason message => message ++ ": " ++ reason ++ " (" ++ toString code ++ ")"
  | .undecodable => "the answer cannot be decoded"
  | .malformedAddress => "the address is malformed"
  | .malformedGroup => "the group is malformed"
  | .transport => "the connection failed"

def FollowFault.message : FollowFault → String
  | .listing cause => "failed to perform initial object list: " ++ cause.message
  | .starting cause => "failed to start watching object: " ++ cause.message
  | .watching cause => "watch stream failed: " ++ cause.message
  | .reported code reason =>
    "error returned by apiserver during watch: " ++ reason ++ " (" ++ toString code ++ ")"
  | .noResourceVersion => "no metadata.resourceVersion in watch result"

namespace Fault

def message : Fault → String
  | invalidKey text => "invalid addon key " ++ quote text
  | conflict key => "conflict while updating the status of addon " ++ key.text
  | notFound key => "addon " ++ key.text ++ " not found"
  | timeout deadline => "external call timed out after " ++ deadline.text
  | noReference key => "addon " ++ key.text ++ " has no discovered config reference"
  | build fingerprint source =>
    "cannot build config watcher for " ++ fingerprint.text ++ ": " ++ source.message
  | unknownResource text => "resource " ++ text ++ " is not served by the cluster"
  | request cause => "kubernetes api error: " ++ cause.message
  | follow cause => "watch error: " ++ cause.message

/-- A malformed key stays malformed; anything else may go better the next time. -/
def isRetryable : Fault → Bool
  | invalidKey _ => false
  | _ => true

end Fault

/-- Reads a key text, or refuses it unchanged. -/
def AddonKey.parse (s : String) : Except Fault AddonKey :=
  match AddonKey.parse? s with
  | some key => .ok key
  | none => .error (.invalidKey s)

end AddonWatch

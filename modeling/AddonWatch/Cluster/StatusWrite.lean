import AddonWatch.Addon.Encoding
import AddonWatch.Cluster.Exchange

namespace AddonWatch

namespace Addon

def location : String :=
  "/apis/" ++ apiGroupVersion ++ "/" ++ plural

def statusLocation (key : AddonKey) : String :=
  "/apis/" ++ apiGroupVersion ++ "/namespaces/" ++ key.ns ++ "/" ++ plural ++ "/" ++ key.name ++
    "/status"

/-- Puts the addon's status in place of the one that the cluster has. -/
def statusDraft (addon : Addon) : Cluster.Draft where
  method := .put
  address := Cluster.Address.written (statusLocation addon.key) []
  body := some addon.encode

/-- A refused write is told by its code: somebody else wrote meanwhile, or the addon is gone. -/
def writeFault (key : AddonKey) : RequestFault → Fault
  | .refused code reason message =>
    if code = 409 then .conflict key
    else if code = 404 then .notFound key
    else .request (.refused code reason message)
  | cause => .request cause

/-- Writes the status; nothing is heard if the write is never answered. -/
def writeStatus (addon : Addon) (x : Cluster.Exchange) :
    Option (Except Fault Unit) × Cluster.Exchange :=
  let (answer, x) := x.request addon.statusDraft Addon.decode
  let result := answer.map fun
    | .ok _ => .ok ()
    | .error cause => .error (writeFault addon.key cause)
  (result, x)

end Addon

end AddonWatch

import AddonWatch.Addon.Encoding
import AddonWatch.Cluster.Exchange
import AddonWatch.Notice

namespace AddonWatch

/-- A notice about an addon, as a controller makes it known to the cluster. -/
structure Announcement where
  controller : String
  addon : AddonKey
  notice : Notice
  note : String
deriving DecidableEq, Repr, Inhabited

namespace Announcement

def apiGroupVersion : String := "events.k8s.io/v1"

def kind : String := "Event"

/-- The document of the announcement but for the moment at which it is made. -/
def encode (a : Announcement) : Json :=
  .obj [
    ("action", .str a.notice.action),
    ("apiVersion", .str apiGroupVersion),
    ("kind", .str kind),
    ("metadata", .obj [
      ("generateName", .str (a.controller ++ "-")),
      ("namespace", .str a.addon.ns)]),
    ("note", .str a.note),
    ("reason", .str a.notice.text),
    ("regarding", .obj [
      ("apiVersion", .str Addon.apiGroupVersion),
      ("kind", .str Addon.kind),
      ("name", .str a.addon.name),
      ("namespace", .str a.addon.ns)]),
    ("reportingController", .str a.controller),
    ("reportingInstance", .str a.controller),
    ("type", .str "Normal")]

/-- The members of an object are as they should be, each null at will, and unknown ones are passed
over. -/
def checkMembers (check : String → Option (Json → Bool)) : Json → Bool
  | .obj members => members.all fun m =>
    match check m.1, m.2 with
    | some _, .null => true
    | some fits, value => fits value
    | none, _ => true
  | _ => false

def isText (document : Json) : Bool :=
  document.text?.isSome

def isStamp (document : Json) : Bool :=
  document.stamp?.isSome

def isCount (document : Json) : Bool :=
  document.int?.any fun n => -2147483648 ≤ n && n ≤ 2147483647

def textMembers (names : List String) : Json → Bool :=
  checkMembers fun name => if names.contains name then some isText else none

def isObjectReference : Json → Bool :=
  textMembers ["apiVersion", "fieldPath", "kind", "name", "namespace", "resourceVersion", "uid"]

/-- A series says when it was seen last. -/
def isSeries (document : Json) : Bool :=
  checkMembers (fun
    | "count" => some isCount
    | "lastObservedTime" => some isStamp
    | _ => none) document &&
  (document.get "lastObservedTime").any isStamp

/-- How the members of an answered announcement have to look like. -/
def memberCheck : String → Option (Json → Bool)
  | "action" | "note" | "reason" | "reportingController" | "reportingInstance" | "type" =>
    some isText
  | "deprecatedCount" => some isCount
  | "deprecatedFirstTimestamp" | "deprecatedLastTimestamp" | "eventTime" => some isStamp
  | "deprecatedSource" => some (textMembers ["component", "host"])
  | "metadata" => some fun document => (Metadata.decode document).isOk
  | "regarding" | "related" => some isObjectReference
  | "series" => some isSeries
  | _ => none

/-- A member that says what the document is must say so rightly. -/
def isNamed (document : Json) (name text : String) : Bool :=
  match document with
  | .obj members => members.all fun m => m.1 ≠ name || m.2.text? = some text
  | _ => false

def isAnnouncement (document : Json) : Bool :=
  checkMembers memberCheck document && isNamed document "apiVersion" apiGroupVersion &&
    isNamed document "kind" kind

/-- The cluster answers with an announcement. -/
def decodeAnswer (document : Json) : Except Flaw Unit := do
  document.pass
  if isAnnouncement document then return () else throw .misplaced

def draft (a : Announcement) : Cluster.Draft where
  method := .post
  address := Cluster.Address.written ("/apis/" ++ apiGroupVersion ++ "/namespaces/" ++ a.addon.ns ++
    "/events") []
  body := some a.encode

/-- Nobody waits for an announcement; if it fails, a log line tells so. -/
def failureLine (a : Announcement) (cause : RequestFault) : Level × String :=
  (.warn, "Cannot publish " ++ a.notice.text ++ " event for addon " ++ a.addon.text ++ ": " ++
    cause.message)

/-- Makes the announcement, and gives the log lines that come of it. -/
def publish (a : Announcement) (x : Cluster.Exchange) :
    List (Level × String) × Cluster.Exchange :=
  let (answer, x) := x.request a.draft decodeAnswer
  match answer with
  | some (.error cause) => ([a.failureLine cause], x)
  | _ => ([], x)

end Announcement

end AddonWatch

import AddonWatch.Addon.Document
import AddonWatch.Hub.Act
import AddonWatch.Sighting

namespace AddonWatch

/-- A configuration object of some type. -/
structure ConfigObject where
  group : String
  version : String
  resource : String
  object : ObjectName
  generation : Option Generation
deriving DecidableEq, Repr, Inhabited

def ConfigObject.hasType (config : ConfigObject) (target : Target) : Bool :=
  config.group = target.group && config.version = target.version &&
    config.resource = target.resource

/-- An event stream: of one target, or of all addons. The hub may have closed it behind what is
queued, and the reader may have let go of it. -/
structure Feed where
  topic : Option Target
  queue : List Signal := []
  closed : Bool := false
  held : Bool := true
deriving Inhabited

/-- An open stream takes a signal; a closed one takes no more. -/
def Feed.push (signal : Signal) (feed : Feed) : Feed :=
  if feed.closed then feed else { feed with queue := feed.queue ++ [signal] }

/-- What the hub stores, the streams it feeds, and how it deals with the calls to come. -/
structure Hub where
  addons : List Addon := []
  configs : List ConfigObject := []
  feeds : List Feed := []
  addonsOpen : Act := .grant
  opens : Script := {}
  writes : Script := {}
  faultyReads : Nat := 0
deriving Inhabited

namespace Hub

def addon? (hub : Hub) (object : ObjectName) : Option Addon :=
  hub.addons.find? fun addon => addon.objectName = object

/-- The object of that name among all objects of the target's type. -/
def config? (hub : Hub) (target : Target) (object : ObjectName) : Option ConfigObject :=
  hub.configs.find? fun config => config.hasType target && config.object = object

def broadcast (hub : Hub) (topic : Option Target) (signal : Signal) : Hub :=
  { hub with
    feeds := hub.feeds.map fun feed => if feed.topic = topic then Feed.push signal feed else feed }

/-- Puts an addon into its place in the order of names, or over the one of its name. -/
def insertAddon (addon : Addon) : List Addon → List Addon
  | [] => [addon]
  | other :: rest =>
    if other.objectName = addon.objectName then addon :: rest
    else if addon.objectName.before other.objectName then addon :: other :: rest
    else other :: insertAddon addon rest

def storeAddon (hub : Hub) (addon : Addon) : Hub :=
  { hub with addons := insertAddon addon hub.addons }

def dropAddon (hub : Hub) (object : ObjectName) : Hub :=
  { hub with addons := hub.addons.filter fun addon => addon.objectName ≠ object }

def announceAddon (hub : Hub) (object : ObjectName) (present : Bool) : Hub :=
  hub.broadcast none (.ok ⟨object, present⟩)

def sameConfig (a b : ConfigObject) : Bool :=
  a.group = b.group && a.version = b.version && a.resource = b.resource && a.object = b.object

def storeConfig (hub : Hub) (config : ConfigObject) : Hub :=
  { hub with configs := config :: hub.configs.filter fun other => !sameConfig other config }

def dropConfig (hub : Hub) (target : Target) : Hub :=
  { hub with
    configs := hub.configs.filter fun c => !(c.hasType target && c.object = target.objectName) }

def announceConfig (hub : Hub) (target : Target) (object : ObjectName) (present : Bool) : Hub :=
  hub.broadcast (some target) (.ok ⟨object, present⟩)

/-- Opens a stream that already holds those signals; its number is the count of earlier ones. -/
def openFeed (hub : Hub) (topic : Option Target) (first : List Signal) : Hub × Nat :=
  ({ hub with feeds := hub.feeds ++ [{ topic := topic, queue := first }] }, hub.feeds.length)

/-- A stream of all addons begins with every stored addon. -/
def openAddons (hub : Hub) : Hub × Nat :=
  hub.openFeed none (hub.addons.map fun addon => .ok ⟨addon.objectName, true⟩)

/-- A stream of one target begins with the object, if it is there. -/
def openConfig (hub : Hub) (target : Target) : Hub × Nat :=
  hub.openFeed (some target)
    (((hub.config? target target.objectName).map fun c => Except.ok ⟨c.object, true⟩).toList)

def releaseFeed (hub : Hub) (feed : Nat) : Hub :=
  { hub with feeds := hub.feeds.modify feed fun f => { f with held := false } }

def closeFeeds (hub : Hub) (choose : Feed → Bool) : Hub :=
  { hub with feeds := hub.feeds.map fun f => if choose f then { f with closed := true } else f }

/-- What the reader of a stream finds: the next signal, the end, or nothing yet. -/
inductive Arrival where
  | signal (signal : Signal)
  | ended
  | quiet

def receive (hub : Hub) (feed : Nat) : Arrival × Hub :=
  match hub.feeds[feed]? with
  | none => (.ended, hub)
  | some f =>
    match f.queue with
    | signal :: rest =>
      (.signal signal,
        { hub with feeds := hub.feeds.modify feed fun f => { f with queue := rest } })
    | [] => (if f.closed then .ended else .quiet, hub)

end Hub

end AddonWatch

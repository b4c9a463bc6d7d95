import AddonWatch.Addon.Key

namespace AddonWatch

/-- What happened to the watcher of an addon. -/
inductive Notice where
  | started
  | stopped
  | changed
deriving DecidableEq, Repr, Inhabited

namespace Notice

def text : Notice → String
  | started => "ConfigWatcherStarted"
  | stopped => "ConfigWatcherStopped"
  | changed => "ConfigReferenceChanged"

def action : Notice → String
  | started => "StartConfigWatcher"
  | stopped => "StopConfigWatcher"
  | changed => "ReplaceConfigWatcher"

/-- The log line that stands for a notice where nothing else takes it. -/
def line (notice : Notice) (key : AddonKey) (note : String) : String :=
  notice.text ++ " for addon " ++ key.text ++ ": " ++ note

end Notice

inductive Level where
  | error
  | warn
  | info
  | debug
deriving DecidableEq, Repr, Inhabited

def Level.text : Level → String
  | error => "ERROR"
  | warn => "WARN"
  | info => "INFO"
  | debug => "DEBUG"

end AddonWatch

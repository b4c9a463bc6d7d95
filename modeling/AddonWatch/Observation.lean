import AddonWatch.Site

namespace AddonWatch

/-- How a piece of work that can fail has ended. -/
inductive Verdict where
  | done
  | failed (fault : Fault)
  | crashed
deriving DecidableEq, Repr, Inhabited

/-- What follows from one look at the configuration object and the addon: nothing, perhaps with a
remark, or a new status. -/
inductive Plan where
  | skip (remark : Option String)
  | write (addon : Addon) (observed : Generation)
deriving Inhabited

namespace Assignment

/-- The name of the configuration object in the namespace of the target. -/
def configName (a : Assignment) (name : String) : ObjectName :=
  ⟨a.target.ns, name⟩

/-- The status is written when both objects are there, the addon still refers to the target, and
the generation to record differs from the one in the reference. -/
def plan (a : Assignment) (name : String) (config? : Option ConfigObject) (addon? : Option Addon) :
    Plan :=
  match config?, addon? with
  | none, _ =>
    .skip (some ("Config object " ++ (a.configName name).text ++ " of addon " ++ a.key.text ++
      " not found"))
  | some _, none => .skip (some ("Addon " ++ a.key.text ++ " not found"))
  | some config, some addon =>
    match addon.reference with
    | none => .skip none
    | some reference =>
      if reference.fingerprint ≠ a.fingerprint then
        .skip (some ("Addon " ++ a.key.text ++ " now references " ++ reference.fingerprint.text ++
          ", skipping update from " ++ a.fingerprint.text))
      else
        let observed := reference.observed.observe (config.generation.getD .zero)
        if observed = reference.observed then .skip none
        else .write (addon.withObserved observed) observed

/-- Looks at both objects and begins the write, if one follows. A faulty read of the configuration
object ends the work at once. -/
def observe (a : Assignment) (name : String) (site : Site) : Site × (Write ⊕ Verdict) :=
  if 0 < site.hub.faultyReads then
    ({ site with hub := { site.hub with faultyReads := site.hub.faultyReads - 1 } }, .inr .crashed)
  else
    match a.plan name (site.hub.config? a.target (a.configName name))
        (site.hub.addon? a.key.objectName) with
    | .skip none => (site, .inr .done)
    | .skip (some remark) => (site.log .debug remark, .inr .done)
    | .write addon observed =>
      let (act, script) := site.hub.writes.take
      ({ site with hub := { site.hub with writes := script } },
        .inl ⟨⟨site.now, act⟩, site.now + site.settings.callTimeout.millis, addon, observed⟩)

end Assignment

namespace Write

/-- The hub puts the addon into the place of the stored one and tells all readers. -/
def commit (w : Write) (author : Option Nat) (site : Site) : Site :=
  { site with
    hub := (site.hub.storeAddon w.addon).announceAddon w.addon.objectName true }.mark
    (.wrote author w.addon site.now)

/-- What a refused write means: a missing addon needs no status. -/
def verdict (fault : Fault) : Verdict :=
  match fault with
  | .notFound _ => .done
  | _ => .failed fault

def finish (w : Write) (a : Assignment) (author : Option Nat) (site : Site) :
    Reply → Site × Verdict
  | .granted =>
    match site.hub.addon? w.addon.objectName with
    | none => (site, verdict (.notFound w.addon.key))
    | some _ =>
      ((w.commit author site).log .debug ("Addon " ++ a.key.text ++ " observed generation " ++
        toString w.observed.val ++ " of " ++ a.fingerprint.text), .done)
  | .refused refusal => (site, verdict (refusal.fault w.addon.key ""))
  | .crashed => (site, .crashed)

/-- Goes on with a write as far as it can now, if it can; an answer at the deadline still counts. -/
def step (w : Write) (a : Assignment) (author : Option Nat) (site : Site) :
    Option (Site × (Write ⊕ Verdict)) :=
  match w.call.advance site.now with
  | .inr reply =>
    let (site, verdict) := w.finish a author site reply
    some (site, .inr verdict)
  | .inl call =>
    if w.deadline ≤ site.now then
      some (site, .inr (.failed (.timeout site.settings.callTimeout)))
    else if call = w.call then none
    else some (site, .inl { w with call := call })

def timers (w : Write) : List Nat :=
  w.deadline :: w.call.timers

end Write

end AddonWatch

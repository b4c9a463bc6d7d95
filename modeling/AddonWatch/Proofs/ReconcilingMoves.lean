import AddonWatch.Proofs.ChildMoves
import AddonWatch.Proofs.RosterLookup

namespace AddonWatch

/-- The reference that the watcher of an addon should follow, as the hub stores the addon now. -/
def Hub.wanted (hub : Hub) (key : AddonKey) : Option Reference :=
  (hub.addon? key.objectName).bind Addon.desired

/-- How the wait for a cancelled child goes on: it has ended, perhaps with a remark, or it is
stopped for good. -/
inductive Settling.Moves (s : Settling) (site : Site) : Site → Prop
  | ended (hf : site.isFinished s.handle.child = true) : Moves s site site
  | panicked (text : String) (hf : site.isFinished s.handle.child = true) :
      Moves s site (site.log .error text)
  | aborts (text : String) : Moves s site ((site.log .warn text).abort s.handle.child)

theorem Settling.step_moves {s : Settling} {site next : Site} {inTime : Bool}
    (h : s.step site = some (next, inTime)) : s.Moves site next := by
  unfold Settling.step at h
  dsimp only at h
  cases hc : site.children[s.handle.child]? with
  | none =>
    rw [hc] at h
    cases h
    exact .ended (by simp [Site.isFinished, hc])
  | some child =>
    have hf : child.condition ≠ .running → site.isFinished s.handle.child = true := fun hn => by
      simp [Site.isFinished_of_getElem? hc, Child.isFinished, hn]
    cases hcond : child.condition with
    | running =>
      simp only [hc, hcond, Option.map_some] at h
      split at h
      · cases h
        exact .aborts _
      · cases h
    | crashed =>
      simp only [hc, hcond, Option.map_some] at h
      cases h
      exact .panicked _ (hf (by simp [hcond]))
    | _ =>
      simp only [hc, hcond, Option.map_some] at h
      cases h
      exact .ended (hf (by simp [hcond]))

/-- What a reconciliation can do next, with the site and the roster behind it. -/
inductive Reconciling.Moves (site : Site) (roster : Roster) :
    Reconciling → Site → Roster → Reconciling ⊕ Verdict → Prop
  | refused (text : String) (fault : Fault) (hp : AddonKey.parse text = .error fault) :
      Moves site roster (.fresh text) site roster (.inr (.failed fault))
  | absent (text : String) (key : AddonKey) (hp : AddonKey.parse text = .ok key)
      (hw : site.hub.wanted key = none) (hg : roster.get? key = none) :
      Moves site roster (.fresh text) site (roster.erase key) (.inr .done)
  | stops (text : String) (key : AddonKey) (handle : Handle) (line note : String)
      (hp : AddonKey.parse text = .ok key) (hw : site.hub.wanted key = none)
      (hg : roster.get? key = some handle) :
      Moves site roster (.fresh text)
        (((site.log .info line).note .stopped key note).fire handle.child) (roster.erase key)
        (.inl (.stopping
          ⟨handle, site.settings.cancelGrace, site.now + site.settings.cancelGrace.millis⟩))
  | keeps (text : String) (key : AddonKey) (reference : Reference) (handle : Handle)
      (hp : AddonKey.parse text = .ok key) (hw : site.hub.wanted key = some reference)
      (hg : roster.get? key = some handle)
      (hcurrent : handle.isCurrent site reference.fingerprint = true) :
      Moves site roster (.fresh text) site roster (.inr .done)
  | asks (text : String) (key : AddonKey) (addon : Addon) (reference : Reference)
      (hp : AddonKey.parse text = .ok key) (ha : site.hub.addon? key.objectName = some addon)
      (hd : addon.desired = some reference) (hg : roster.get? key = none) :
      Moves site roster (.fresh text) (Opening.start addon.key reference site).1
        (roster.erase key) (.inl (.opening key (Opening.start addon.key reference site).2))
  | replaces (text : String) (key : AddonKey) (addon : Addon) (reference : Reference)
      (handle : Handle) (trace : List Mark) (hp : AddonKey.parse text = .ok key)
      (ha : site.hub.addon? key.objectName = some addon) (hd : addon.desired = some reference)
      (hg : roster.get? key = some handle)
      (hcurrent : handle.isCurrent site reference.fingerprint = false)
      (hw : ({ site with trace := trace } : Site).writes = site.writes) :
      Moves site roster (.fresh text) (({ site with trace := trace } : Site).fire handle.child)
        (roster.erase key) (.inl (.replacing key addon reference
          ⟨handle, site.settings.cancelGrace, site.now + site.settings.cancelGrace.millis⟩))
  | stopped (settling : Settling) (next : Site) (hs : settling.Moves site next) :
      Moves site roster (.stopping settling) next roster (.inr .done)
  | replaced (key : AddonKey) (addon : Addon) (reference : Reference) (settling : Settling)
      (next : Site) (hs : settling.Moves site next) :
      Moves site roster (.replacing key addon reference settling)
        (Opening.start addon.key reference next).1 roster
        (.inl (.opening key (Opening.start addon.key reference next).2))
  | waits (key : AddonKey) (attempt : Opening) (call : Call)
      (hcall : attempt.call.advance site.now = .inl call) :
      Moves site roster (.opening key attempt) site roster
        (.inl (.opening key { attempt with call := call }))
  | builds (key : AddonKey) (attempt : Opening) (line note : String)
      (hcall : attempt.call.advance site.now = .inr .granted) :
      Moves site roster (.opening key attempt)
        (((attempt.begin site).1.log .info line).note .started key note)
        (roster.insert key (attempt.begin site).2).2 (.inr .done)
  | fails (key : AddonKey) (attempt : Opening) (fault : Fault)
      (hretry : fault.isRetryable = true) :
      Moves site roster (.opening key attempt) site roster (.inr (.failed fault))
  | crashes (key : AddonKey) (attempt : Opening)
      (hcall : attempt.call.advance site.now = .inr .crashed) :
      Moves site roster (.opening key attempt) site roster (.inr .crashed)

namespace Reconciling

/-- Saying why a watcher is replaced leaves marks, and no more. -/
theorem announceReplacement_eq (key : AddonKey) (old new : Fingerprint) (site : Site) :
    ∃ trace, announceReplacement key old new site = { site with trace := trace } ∧
      ({ site with trace := trace } : Site).writes = site.writes := by
  unfold announceReplacement
  split
  · exact ⟨_, rfl, rfl⟩
  · exact ⟨_, rfl, rfl⟩

theorem moves_of_start {text : String} {site next : Site} {roster roster' : Roster}
    {result : Reconciling ⊕ Verdict} (h : start text roster site = (next, roster', result)) :
    Moves site roster (.fresh text) next roster' result := by
  unfold start at h
  split at h
  next fault hp =>
    cases h
    exact .refused text fault hp
  next key hp =>
    unfold decision at h
    cases ha : site.hub.addon? key.objectName with
    | none =>
      have hw : site.hub.wanted key = none := by simp [Hub.wanted, ha]
      simp only [ha, stop, Roster.remove] at h
      cases hg : roster.get? key with
      | none => rw [hg] at h; cases h; exact .absent text key hp hw hg
      | some handle => rw [hg] at h; cases h; exact .stops text key handle _ _ hp hw hg
    | some addon =>
      cases hd : addon.desired with
      | none =>
        have hw : site.hub.wanted key = none := by simp [Hub.wanted, ha, hd]
        simp only [ha, hd, stop, Roster.remove] at h
        cases hg : roster.get? key with
        | none => rw [hg] at h; cases h; exact .absent text key hp hw hg
        | some handle => rw [hg] at h; cases h; exact .stops text key handle _ _ hp hw hg
      | some reference =>
        have hw : site.hub.wanted key = some reference := by simp [Hub.wanted, ha, hd]
        cases hg : roster.get? key with
        | none =>
          simp only [ha, hd, hg, Option.any_none, Bool.false_eq_true, if_false, replace,
            Roster.remove] at h
          cases h
          exact .asks text key addon reference hp ha hd hg
        | some handle =>
          cases hcurrent : handle.isCurrent site reference.fingerprint with
          | true =>
            simp only [ha, hd, hg, Option.any_some, hcurrent, if_true] at h
            cases h
            exact .keeps text key reference handle hp hw hg hcurrent
          | false =>
            simp only [ha, hd, hg, Option.any_some, hcurrent, Bool.false_eq_true, if_false,
              replace, Roster.remove] at h
            cases h
            obtain ⟨trace, he, hw⟩ := announceReplacement_eq key handle.fingerprint
              reference.fingerprint site
            rw [he]
            exact .replaces text key addon reference handle trace hp ha hd hg hcurrent hw

theorem moves_of_opening {key : AddonKey} {attempt : Opening} {site next : Site}
    {roster roster' : Roster} {result : Reconciling ⊕ Verdict}
    (h : (Reconciling.opening key attempt).step roster site = some (next, roster', result)) :
    Moves site roster (.opening key attempt) next roster' result := by
  obtain ⟨⟨after, outcome⟩, hstep, h⟩ := Option.map_eq_some_iff.mp h
  unfold Opening.step at hstep
  split at hstep
  next hcall =>
    cases hstep
    cases h
    exact .builds key attempt _ _ hcall
  next refusal hcall =>
    cases hstep
    cases h
    exact .fails key attempt _ rfl
  next hcall =>
    cases hstep
    cases h
    exact .crashes key attempt hcall
  next call hcall =>
    split at hstep
    · cases hstep
      cases h
      exact .fails key attempt _ rfl
    · split at hstep
      · cases hstep
      · cases hstep
        cases h
        exact .waits key attempt call hcall

theorem step_moves {work : Reconciling} {site next : Site} {roster roster' : Roster}
    {result : Reconciling ⊕ Verdict} (h : work.step roster site = some (next, roster', result)) :
    Moves site roster work next roster' result := by
  cases work with
  | fresh text => exact moves_of_start (Option.some.inj h)
  | stopping settling =>
    obtain ⟨⟨after, inTime⟩, hstep, h⟩ := Option.map_eq_some_iff.mp h
    cases h
    exact .stopped settling _ (Settling.step_moves hstep)
  | replacing key addon reference settling =>
    obtain ⟨⟨after, inTime⟩, hstep, h⟩ := Option.map_eq_some_iff.mp h
    cases h
    exact .replaced key addon reference settling _ (Settling.step_moves hstep)
  | opening key attempt => exact moves_of_opening h

end Reconciling

end AddonWatch

import AddonWatch.Hub.Store
import Mathlib.Data.List.Basic

namespace AddonWatch

namespace Hub

/-- Nothing has changed but which streams are held. -/
structure Sheds (old new : Hub) : Prop where
  addons : new.addons = old.addons
  configs : new.configs = old.configs
  addonsOpen : new.addonsOpen = old.addonsOpen
  opens : new.opens = old.opens
  writes : new.writes = old.writes
  reads : new.faultyReads = old.faultyReads
  feeds : ∀ i : Nat, ∃ held : Bool,
    new.feeds[i]? = old.feeds[i]?.map fun f : Feed => { f with held := held }

namespace Sheds

protected theorem refl (hub : Hub) : hub.Sheds hub := by
  refine ⟨rfl, rfl, rfl, rfl, rfl, rfl, fun i => ?_⟩
  cases h : hub.feeds[i]? with
  | none => exact ⟨true, rfl⟩
  | some f => exact ⟨f.held, rfl⟩

protected theorem trans {a b c : Hub} (hab : a.Sheds b) (hbc : b.Sheds c) : a.Sheds c where
  addons := hbc.addons.trans hab.addons
  configs := hbc.configs.trans hab.configs
  addonsOpen := hbc.addonsOpen.trans hab.addonsOpen
  opens := hbc.opens.trans hab.opens
  writes := hbc.writes.trans hab.writes
  reads := hbc.reads.trans hab.reads
  feeds i := by
    obtain ⟨h, hb⟩ := hab.feeds i
    obtain ⟨k, hc⟩ := hbc.feeds i
    refine ⟨k, ?_⟩
    rw [hc, hb]
    cases a.feeds[i]? <;> rfl

theorem releaseFeed (hub : Hub) (feed : Nat) : hub.Sheds (hub.releaseFeed feed) := by
  refine ⟨rfl, rfl, rfl, rfl, rfl, rfl, fun i => ?_⟩
  simp only [Hub.releaseFeed, List.getElem?_modify]
  by_cases hi : feed = i
  · exact ⟨false, by simp [hi]⟩
  · cases h : hub.feeds[i]? with
    | none => exact ⟨true, by simp⟩
    | some f => exact ⟨f.held, by simp [hi]⟩

end Sheds

theorem receive_signal {hub next : Hub} {feed : Nat} {signal : Signal}
    (h : hub.receive feed = (.signal signal, next)) :
    ∃ f rest, hub.feeds[feed]? = some f ∧ f.queue = signal :: rest ∧
      next = { hub with feeds := hub.feeds.modify feed fun f => { f with queue := rest } } := by
  unfold receive at h
  split at h
  next => cases h
  next f hf =>
    split at h
    next first rest hq =>
      cases h
      exact ⟨f, rest, hf, hq, rfl⟩
    next =>
      split at h <;> cases h

theorem receive_quiet {hub next : Hub} {feed : Nat} (h : hub.receive feed = (.quiet, next)) :
    ∃ f, hub.feeds[feed]? = some f ∧ f.queue = [] ∧ f.closed = false := by
  unfold receive at h
  split at h
  next => cases h
  next f hf =>
    split at h
    next => cases h
    next hq =>
      split at h
      next => cases h
      next hc => exact ⟨f, hf, hq, by simpa using hc⟩

end Hub

end AddonWatch

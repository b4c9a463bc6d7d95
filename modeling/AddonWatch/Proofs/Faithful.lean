import AddonWatch.Proofs.Identity
import AddonWatch.Proofs.Streams

namespace AddonWatch

/-- No reference of a stored addon holds a slash in a coordinate. -/
def Hub.IsSlashFree (hub : Hub) : Prop :=
  ∀ addon ∈ hub.addons, ∀ reference, addon.reference = some reference → reference.IsSlashFree

/-- The fingerprint and the target are those of one reference, without a slash in a coordinate. -/
def Assignment.IsFaithful (a : Assignment) : Prop :=
  ∃ reference : Reference, reference.IsSlashFree ∧ a.fingerprint = reference.fingerprint ∧
    a.target = reference.target

/-- A target that goes with a fingerprint goes with every reference of that fingerprint. -/
theorem Assignment.IsFaithful.target_eq {a : Assignment} (h : a.IsFaithful) {reference : Reference}
    (hr : reference.fingerprint = a.fingerprint) : a.target = reference.target := by
  obtain ⟨origin, hfree, hf, ht⟩ := h
  rw [ht, Reference.target_of_fingerprint hfree (hr.trans hf)]

def Reconciling.IsFaithful : Reconciling → Prop
  | .replacing _ _ reference _ => reference.IsSlashFree
  | .opening _ attempt => attempt.assignment.IsFaithful
  | _ => True

theorem Addon.reference_of_desired {addon : Addon} {reference : Reference}
    (h : addon.desired = some reference) : addon.reference = some reference := by
  unfold Addon.desired at h
  split at h
  · cases h
  · exact (Option.filter_eq_some_iff.mp h).1

/-- The generation observed is no coordinate. -/
theorem Addon.isSlashFree_withObserved {addon : Addon} {observed : Generation}
    {old reference : Reference} (ho : addon.reference = some old) (hf : old.IsSlashFree)
    (h : (addon.withObserved observed).reference = some reference) : reference.IsSlashFree := by
  rw [Addon.reference_withObserved, ho] at h
  cases h
  exact hf

theorem Hub.mem_insertAddon {addon other : Addon} {addons : List Addon}
    (h : other ∈ insertAddon addon addons) : other = addon ∨ other ∈ addons := by
  induction addons with
  | nil => exact .inl (List.mem_singleton.mp h)
  | cons first rest ih =>
    unfold insertAddon at h
    split at h
    · rcases List.mem_cons.mp h with rfl | h
      · exact .inl rfl
      · exact .inr (List.mem_cons_of_mem _ h)
    · split at h
      · rcases List.mem_cons.mp h with rfl | h
        · exact .inl rfl
        · exact .inr h
      · rcases List.mem_cons.mp h with rfl | h
        · exact .inr List.mem_cons_self
        · exact (ih h).imp_right (List.mem_cons_of_mem _)

theorem Hub.mem_of_addon? {hub : Hub} {object : ObjectName} {addon : Addon}
    (h : hub.addon? object = some addon) : addon ∈ hub.addons :=
  List.mem_of_find?_eq_some h

theorem Reconciling.Moves.addons {work : Reconciling} {site next : Site} {roster roster' : Roster}
    {result : Reconciling ⊕ Verdict} (h : work.Moves site roster next roster' result) :
    next.hub.addons = site.hub.addons := by
  rcases h.effect with ⟨mid, hw, rfl | ⟨key, reference, rfl⟩⟩ | ⟨key, attempt, -, hw⟩
  · exact hw.hub.addons
  · exact hw.hub.addons
  · exact hw.hub.addons

theorem Reconciling.Moves.faithful {work work' : Reconciling} {site next : Site}
    {roster roster' : Roster} (h : work.Moves site roster next roster' (.inl work'))
    (hhub : site.hub.IsSlashFree) (hw : work.IsFaithful) : work'.IsFaithful := by
  have hfree : ∀ {object addon reference}, site.hub.addon? object = some addon →
      addon.desired = some reference → reference.IsSlashFree := fun ha hd =>
    hhub _ (Hub.mem_of_addon? ha) _ (Addon.reference_of_desired hd)
  cases h with
  | stops => trivial
  | asks text key addon reference hp ha hd => exact ⟨reference, hfree ha hd, rfl, rfl⟩
  | replaces text key addon reference handle trace hp ha hd => exact hfree ha hd
  | replaced key addon reference => exact ⟨reference, hw, rfl, rfl⟩
  | waits => exact hw

theorem Desk.Moves.addons {desk desk' : Desk} {isSealed : Bool} {site site' : Site}
    (h : desk.Moves isSealed site site' desk') : site'.hub.addons = site.hub.addons := by
  rcases h.effect with hw | ⟨_, _, _, _, _, _, -, hm, hw⟩
  · exact hw.hub.addons
  · exact hw.hub.addons.trans hm.addons

theorem Follower.Moves.addons {f : Follower} {i : Nat} {site next : Site}
    {result : Follower ⊕ Ending} (h : f.Moves i site next result) :
    next.hub.addons = site.hub.addons ∨ ∃ write, f.phase = .writing write ∧
      next.hub.addons = Hub.insertAddon write.addon site.hub.addons := by
  cases h with
  | sights sighting hub hphase hr =>
    obtain ⟨_, rest, -, -, rfl⟩ := Hub.receive_signal hr
    exact .inl rfl
  | misses fault hub text hphase hr =>
    obtain ⟨_, rest, -, -, rfl⟩ := Hub.receive_signal hr
    exact .inl rfl
  | skips _ _ _ _ _ hnext => rcases hnext with rfl | ⟨text, rfl⟩ <;> exact .inl rfl
  | commits write text old hphase => exact .inr ⟨write, hphase, rfl⟩
  | _ => exact .inl rfl

theorem Site.ChildMoves.addons {site next : Site} {i : Nat} {child : Child} {f : Follower}
    (h : site.ChildMoves i child f next) :
    next.hub.addons = site.hub.addons ∨ ∃ write, f.phase = .writing write ∧
      next.hub.addons = Hub.insertAddon write.addon site.hub.addons := by
  rcases h.hub with hsheds | ⟨after, result, -, hm, hsheds⟩
  · exact .inl hsheds.addons
  · rw [hsheds.addons]
    exact hm.addons

namespace Supervision

theorem LeadMoves.addons {s next : Supervision} (h : s.LeadMoves next) :
    next.site.hub.addons = s.site.hub.addons := by
  rcases h.hub with hsheds | hsheds | ⟨feed, streaming, tick, signal, hlead, hr⟩
  · exact hsheds.addons
  · exact hsheds.addons
  · obtain ⟨_, rest, -, -, he⟩ := Hub.receive_signal hr
    rw [he]

end Supervision

end AddonWatch

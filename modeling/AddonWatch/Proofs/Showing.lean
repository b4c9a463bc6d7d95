import AddonWatch.Proofs.Honesty

namespace AddonWatch

namespace Hub

/-- Anyone may change the hub, as long as every change of an addon is told, and every change of an
object to the streams of that target, which tell of nothing else. -/
structure Shows (old new : Hub) : Prop where
  tells : old.Tells new
  targets : ∀ (n : Nat) (f : Feed) (target : Target), old.feeds[n]? = some f →
    f.topic = some target → ∃ (g : Feed) (more : List Signal), new.feeds[n]? = some g ∧
      (f.closed = true → g.closed = true) ∧ g.queue = f.queue ++ more ∧
      (∀ sighting : Sighting, .ok sighting ∈ more → sighting.object.name = target.name) ∧
      (new.config? target target.objectName ≠ old.config? target target.objectName →
        g.closed = true ∨ ∃ sighting : Sighting, .ok sighting ∈ more)

/-- An addon that is there keeps the generation observed in it for as long as it keeps its
reference. -/
def CarriesOver (old new : Hub) : Prop :=
  ∀ a observed observed', old.Records a observed → new.Records a observed' → observed' = observed

/-- A change of the addons alone, announced to the streams of all addons as long as they are open,
is one that is told. -/
theorem Shows.announce {hub : Hub} {addons : List Addon} {object : ObjectName} {present : Bool}
    (hopen : ∀ f ∈ hub.feeds, f.topic = none → f.closed = false)
    (hchange : ∀ other, other ≠ object →
      ({ hub with addons := addons } : Hub).addon? other = hub.addon? other) :
    hub.Shows (({ hub with addons := addons } : Hub).announceAddon object present) := by
  have hfeed : ∀ (n : Nat) (f : Feed), hub.feeds[n]? = some f →
      (({ hub with addons := addons } : Hub).announceAddon object present).feeds[n]? =
        some (if f.topic = none then f.push (.ok ⟨object, present⟩) else f) :=
    fun n f hf => feeds_announceAddon { hub with addons := addons } hf object present
  refine ⟨⟨fun n f hf ht => ?_, fun n f hf ht => ⟨f, ?_, rfl⟩⟩, fun n f target hf ht => ?_⟩
  · have hc := hopen f (List.mem_of_getElem? hf) ht
    have hnew := hfeed n f hf
    rw [if_pos ht, Feed.push_of_open hc] at hnew
    refine ⟨_, [.ok ⟨object, present⟩], hnew, ht, rfl, rfl, fun other hne => ⟨present, ?_⟩⟩
    · have he : other = object := by
        by_contra hother
        exact hne (hchange other hother)
      simp [he]
  · rw [hfeed n f hf, if_neg ht]
  · refine ⟨f, [], by rw [hfeed n f hf, if_neg (by simp [ht])], id, by simp, by simp, fun hne => ?_⟩
    exact absurd rfl hne

theorem CarriesOver.of_same {old new : Hub}
    (h : ∀ object addon addon', old.addon? object = some addon →
      new.addon? object = some addon' → addon' = addon) : old.CarriesOver new := by
  intro a observed observed' ho hn
  obtain ⟨addon', reference, hs, hrest⟩ := hn
  obtain ⟨addon, _, hs', -⟩ := id ho
  obtain rfl := h _ _ _ hs' hs
  exact ho.unique ⟨addon', reference, hs', hrest⟩

/-- The hub without the addon, as it is told. -/
def without (hub : Hub) (object : ObjectName) : Hub :=
  (hub.dropAddon object).announceAddon object false

/-- The hub with the addon, as it is told. -/
def withAddon (hub : Hub) (addon : Addon) : Hub :=
  (hub.storeAddon addon).announceAddon addon.objectName true

theorem addon?_without_self (hub : Hub) (object : ObjectName) :
    (hub.without object).addon? object = none := by
  simp [without, announceAddon, broadcast, dropAddon, addon?]

theorem addon?_without_of_ne (hub : Hub) {object other : ObjectName} (h : other ≠ object) :
    (hub.without object).addon? other = hub.addon? other := by
  simp only [without, announceAddon, broadcast, dropAddon, addon?, List.find?_filter]
  congr 1
  funext addon
  by_cases he : addon.objectName = other
  · simp [he, h]
  · simp [he]

theorem shows_without {hub : Hub} {object : ObjectName}
    (hopen : ∀ f ∈ hub.feeds, f.topic = none → f.closed = false) :
    hub.Shows (hub.without object) :=
  .announce hopen fun _ hne => addon?_without_of_ne hub hne

theorem shows_withAddon {hub : Hub} {addon : Addon}
    (hopen : ∀ f ∈ hub.feeds, f.topic = none → f.closed = false) :
    hub.Shows (hub.withAddon addon) :=
  .announce hopen fun _ hne => addon?_stores_of_ne hub (Ne.symm hne)

theorem carriesOver_without (hub : Hub) (object : ObjectName) :
    hub.CarriesOver (hub.without object) := by
  refine .of_same fun other addon addon' ho hn => ?_
  by_cases he : other = object
  · rw [he, addon?_without_self] at hn
    cases hn
  · rw [addon?_without_of_ne hub he, ho] at hn
    exact (Option.some.inj hn).symm

theorem carriesOver_withAddon {hub : Hub} {addon : Addon}
    (h : hub.addon? addon.objectName = none) : hub.CarriesOver (hub.withAddon addon) := by
  refine .of_same fun other old new ho hn => ?_
  by_cases he : addon.objectName = other
  · rw [← he, h] at ho
    cases ho
  · rw [withAddon, addon?_stores_of_ne hub he, ho] at hn
    exact (Option.some.inj hn).symm

theorem IsSlashFree.without {hub : Hub} (h : hub.IsSlashFree) (object : ObjectName) :
    (hub.without object).IsSlashFree :=
  fun addon ha => h addon (List.mem_of_mem_filter ha)

theorem IsSlashFree.withAddon {hub : Hub} (h : hub.IsSlashFree) {addon : Addon}
    (ha : ∀ reference, addon.reference = some reference → reference.IsSlashFree) :
    (hub.withAddon addon).IsSlashFree := by
  intro other ho reference hr
  rcases mem_insertAddon ho with rfl | hold
  · exact ha reference hr
  · exact h other hold reference hr

theorem open_without {hub : Hub} {object : ObjectName}
    (hopen : ∀ f ∈ hub.feeds, f.topic = none → f.closed = false) :
    ∀ f ∈ (hub.without object).feeds, f.topic = none → f.closed = false := by
  intro f hf ht
  obtain ⟨g, hg, rfl⟩ := List.mem_map.mp hf
  split at ht
  next hn =>
    have hc := hopen g hg hn
    simp [hn, Feed.push, hc]
  next hn => exact absurd ht hn

end Hub

end AddonWatch

import AddonWatch.Proofs.Breakdown
import AddonWatch.Proofs.Streams

namespace AddonWatch

namespace Hub

/-- The stored addon has the reference that is followed, and this generation observed in it. -/
def Records (hub : Hub) (a : Assignment) (observed : Generation) : Prop :=
  ∃ (addon : Addon) (reference : Reference), hub.addon? a.key.objectName = some addon ∧
    addon.reference = some reference ∧ reference.fingerprint = a.fingerprint ∧
    reference.observed = observed

/-- The object is there, with this generation. -/
def Counts (hub : Hub) (target : Target) (generation : Generation) : Prop :=
  0 < generation.val ∧ ∃ config, hub.config? target target.objectName = some config ∧
    config.generation = some generation

/-- The stream brings one more sighting, or its end. -/
def Brings (hub : Hub) (n : Nat) : Prop :=
  ∃ feed, hub.feeds[n]? = some feed ∧
    (feed.closed = true ∨ ∃ sighting : Sighting, .ok sighting ∈ feed.queue)

theorem Counts.congr {old new : Hub} {target : Target} {generation : Generation}
    (h : old.Counts target generation) (hc : new.configs = old.configs) :
    new.Counts target generation := by
  obtain ⟨hpos, config, hconfig, hg⟩ := h
  exact ⟨hpos, config, by unfold config? at hconfig ⊢; rw [hc]; exact hconfig, hg⟩

theorem Records.congr {old new : Hub} {a : Assignment} {observed : Generation}
    (h : old.Records a observed)
    (ha : new.addon? a.key.objectName = old.addon? a.key.objectName) :
    new.Records a observed := by
  obtain ⟨addon, reference, hs, hrest⟩ := h
  exact ⟨addon, reference, ha.trans hs, hrest⟩

theorem Counts.unique {hub : Hub} {target : Target} {g g' : Generation}
    (h : hub.Counts target g) (h' : hub.Counts target g') : g = g' := by
  obtain ⟨-, config, hc, hg⟩ := h
  obtain ⟨-, config', hc', hg'⟩ := h'
  obtain rfl : config = config' := Option.some.inj (hc.symm.trans hc')
  exact Option.some.inj (hg.symm.trans hg')

theorem Records.unique {hub : Hub} {a : Assignment} {observed observed' : Generation}
    (h : hub.Records a observed) (h' : hub.Records a observed') : observed' = observed := by
  obtain ⟨addon, reference, ha, hr, -, rfl⟩ := h
  obtain ⟨addon', reference', ha', hr', -, rfl⟩ := h'
  obtain rfl : addon = addon' := Option.some.inj (ha.symm.trans ha')
  obtain rfl : reference = reference' := Option.some.inj (hr.symm.trans hr')
  rfl

end Hub

/-- The addon is never said to be missing by one who refuses a write of it. -/
def Reply.IsHonest (reply : Reply) : Prop :=
  ∀ refusal key found, reply = .refused refusal → refusal.fault key "" ≠ .notFound found

/-- The watcher knows the object by its name. What it has not applied yet, or what its stream still
brings, makes up for an observed generation that is not the one of the object; that goes for the
generation in the stored addon as for the one that it is about to write. -/
structure Follower.KeepsUp (f : Follower) (hub : Hub) : Prop where
  named : 0 < f.unapplied → f.name = f.assignment.target.name
  rests : f.phase = .listening → f.retryAt = none → f.unapplied = 0
  stream : ∀ feed, hub.feeds[f.feed]? = some feed → ∀ sighting : Sighting,
    .ok sighting ∈ feed.queue → sighting.object.name = f.assignment.target.name
  drafts : ∀ write generation, f.phase = .writing write →
    hub.Counts f.assignment.target generation →
      write.observed = generation ∨ 1 < f.unapplied ∨ hub.Brings f.feed
  records : ∀ observed generation, hub.Records f.assignment observed →
    hub.Counts f.assignment.target generation →
      observed = generation ∨ 0 < f.unapplied ∨ hub.Brings f.feed

theorem Assignment.plan_skip {a : Assignment} {name : String} {config : ConfigObject}
    {addon : Addon} {reference : Reference} {generation : Generation} {remark : Option String}
    (h : a.plan name (some config) (some addon) = .skip remark)
    (hr : addon.reference = some reference) (hf : reference.fingerprint = a.fingerprint)
    (hg : config.generation = some generation) (hpos : 0 < generation.val) :
    reference.observed = generation := by
  simp only [plan, hr, hf, hg, ne_eq, not_true_eq_false, if_false, Option.getD_some,
    Generation.observe, hpos, if_true] at h
  split at h
  next he => exact he.symm
  next => cases h

/-- What is written in answer to a sighting is the generation of the object as it is. -/
theorem Assignment.observed_of_plan {a : Assignment} {name : String} {hub : Hub}
    {stored : Option Addon} {addon : Addon} {observed generation : Generation}
    (hname : a.configName name = a.target.objectName)
    (hplan : a.plan name (hub.config? a.target (a.configName name)) stored =
      .write addon observed)
    (hg : hub.Counts a.target generation) : observed = generation := by
  obtain ⟨config, old, reference, hc, -, -, -, -, ho, -⟩ := plan_write hplan
  obtain ⟨hpos, found, hfound, hgen⟩ := hg
  rw [hname] at hc
  obtain rfl : found = config := Option.some.inj (hfound.symm.trans hc)
  rw [ho, hgen]
  simp [Generation.observe, hpos]

namespace Follower

/-- Taking the first signal from a stream leaves what is behind it. -/
theorem KeepsUp.stream_of_receive {f : Follower} {hub next : Hub} {signal : Signal}
    (h : f.KeepsUp hub) (hr : hub.receive f.feed = (.signal signal, next)) :
    (∀ sighting, signal = .ok sighting → sighting.object.name = f.assignment.target.name) ∧
      ∀ feed, next.feeds[f.feed]? = some feed → ∀ sighting : Sighting, .ok sighting ∈ feed.queue →
        sighting.object.name = f.assignment.target.name := by
  obtain ⟨feed, rest, hf, hq, rfl⟩ := Hub.receive_signal hr
  have hqueue := h.stream feed hf
  rw [hq] at hqueue
  refine ⟨fun sighting he => hqueue sighting (by simp [he]), fun g hg sighting hs => ?_⟩
  have hg' : g = { feed with queue := rest } := by simpa [hf] using hg.symm
  rw [hg'] at hs
  exact hqueue sighting (List.mem_cons_of_mem _ hs)

theorem brings_of_receive {hub next : Hub} {n : Nat} {fault : Fault}
    (hr : hub.receive n = (.signal (.error fault), next)) (h : hub.Brings n) : next.Brings n := by
  obtain ⟨feed, rest, hf, hq, rfl⟩ := Hub.receive_signal hr
  obtain ⟨g, hg, hrest⟩ := h
  obtain rfl : feed = g := Option.some.inj (hf.symm.trans hg)
  refine ⟨{ feed with queue := rest }, by simp [hf], hrest.imp_right ?_⟩
  rintro ⟨sighting, hs⟩
  rw [hq] at hs
  exact ⟨sighting, (List.mem_cons.mp hs).resolve_left (by simp)⟩

/-- The object that a watcher looks at is the one of its target. -/
theorem KeepsUp.config_eq {f : Follower} {hub : Hub} (h : f.KeepsUp hub) (hpos : 0 < f.unapplied) :
    f.assignment.configName f.name = f.assignment.target.objectName := by
  rw [h.named hpos]
  rfl

/-- A sighting that asks for no write finds the generation recorded. -/
theorem KeepsUp.recorded_of_plan {f : Follower} {hub : Hub} (h : f.KeepsUp hub)
    (hpos : 0 < f.unapplied) {remark : Option String} {observed generation : Generation}
    (hplan : f.assignment.plan f.name
      (hub.config? f.assignment.target (f.assignment.configName f.name))
      (hub.addon? f.assignment.key.objectName) = .skip remark)
    (hr : hub.Records f.assignment observed) (hg : hub.Counts f.assignment.target generation) :
    observed = generation := by
  obtain ⟨addon, reference, hs, href, hf, rfl⟩ := hr
  obtain ⟨hgpos, config, hc, hgen⟩ := hg
  rw [hs, h.config_eq hpos, hc] at hplan
  exact Assignment.plan_skip hplan href hf hgen hgpos

/-- After a write the stored addon has in it what was written. -/
theorem Drafted.records {f : Follower} {write : Write} (h : f.Drafted)
    (hphase : f.phase = .writing write) (hub : Hub) :
    ((hub.storeAddon write.addon).announceAddon write.addon.objectName true).Records f.assignment
      write.observed := by
  obtain ⟨reference, href, hfp, hobserved⟩ := h.reference hphase
  exact ⟨write.addon, reference, h.objectName hphase ▸ Hub.addon?_stores_self _ _, href, hfp,
    hobserved⟩

theorem KeepsUp.sights {f : Follower} {hub next : Hub} {sighting : Sighting} (h : f.KeepsUp hub)
    (hr : hub.receive f.feed = (.signal (.ok sighting), next)) :
    (f.sighted sighting).KeepsUp next := by
  obtain ⟨hname, hstream⟩ := h.stream_of_receive hr
  refine ⟨fun _ => hname sighting rfl, fun hp hn => ?_, hstream, fun write g hp => ?_,
    fun observed g _ _ => .inr (.inl ?_)⟩
  · have hn' : f.retryAt = none := hn
    simp [sighted, hn'] at hp
  · simp only [sighted] at hp
    split at hp <;> cases hp
  · simp only [sighted, mostUnapplied]
    omega

theorem KeepsUp.misses {f : Follower} {hub next : Hub} {fault : Fault} (h : f.KeepsUp hub)
    (hphase : f.phase = .listening)
    (hr : hub.receive f.feed = (.signal (.error fault), next)) : f.KeepsUp next := by
  obtain ⟨-, hstream⟩ := h.stream_of_receive hr
  have hsame := Hub.receive_signal hr
  refine ⟨h.named, h.rests, hstream, fun write g hp => by simp [hphase] at hp,
    fun observed g hrec hg => ?_⟩
  obtain ⟨_, _, -, -, rfl⟩ := hsame
  exact (h.records observed g hrec hg).imp_right (.imp_right (brings_of_receive hr))

/-- With its write stored, a watcher has one sighting less to apply. -/
theorem KeepsUp.commits {f : Follower} {hub : Hub} {write : Write} (h : f.KeepsUp hub)
    (site : Site) (hd : f.Drafted) (hphase : f.phase = .writing write)
    (hfeed : ∃ feed : Feed, hub.feeds[f.feed]? = some feed ∧
      feed.topic = some f.assignment.target) :
    (f.appliedOne site).KeepsUp
      ((hub.storeAddon write.addon).announceAddon write.addon.objectName true) := by
  obtain ⟨feed, hf, ht⟩ := hfeed
  have hsame : ((hub.storeAddon write.addon).announceAddon write.addon.objectName
      true).feeds[f.feed]? = some feed := by
    rw [Hub.feeds_announceAddon (hub.storeAddon write.addon) hf, if_neg (by simp [ht])]
  refine ⟨fun hp => h.named (by simp only [appliedOne] at hp; omega), by simp [appliedOne],
    fun g hg sighting hs => ?_, by simp [appliedOne], fun observed g hr hg => ?_⟩
  · obtain rfl : feed = g := Option.some.inj (hsame.symm.trans hg)
    exact h.stream feed hf sighting hs
  · rw [(hd.records hphase hub).unique hr]
    rcases h.drafts write g hphase (hg.congr rfl) with he | hmore | ⟨other, ho, hrest⟩
    · exact .inl he
    · exact .inr (.inl (by simp only [appliedOne]; omega))
    · obtain rfl : feed = other := Option.some.inj (hf.symm.trans ho)
      exact .inr (.inr ⟨feed, hsame, hrest⟩)

/-- With the addon gone there is nothing to record for it. -/
theorem KeepsUp.vanishes {f : Follower} {hub : Hub} (h : f.KeepsUp hub) (site : Site)
    (hnone : hub.addon? f.assignment.key.objectName = none) : (f.appliedOne site).KeepsUp hub :=
  { h with
    named := fun hp => h.named (by simp only [appliedOne] at hp; omega)
    rests := by simp [appliedOne]
    drafts := by simp [appliedOne]
    records := fun observed g hr _ => by
      obtain ⟨addon, _, hs, -⟩ := hr
      exact absurd (hnone.symm.trans hs) (by simp) }

/-- A watcher that goes on keeps up, if the stored addon is said to be missing only when it is. -/
theorem Moves.keepsUp {f f' : Follower} {i : Nat} {site next : Site}
    (h : f.Moves i site next (.inl f')) (hk : f.KeepsUp site.hub) (hd : f.Drafted)
    (hhonest : ∀ write, f.phase = .writing write → write.call.act.Gives Reply.IsHonest)
    (hfeed : ∃ feed : Feed, site.hub.feeds[f.feed]? = some feed ∧
      feed.topic = some f.assignment.target) : f'.KeepsUp next.hub := by
  cases h with
  | due => exact { hk with rests := by simp, drafts := by simp }
  | sights sighting hub hphase hr => exact hk.sights hr
  | misses fault hub text hphase hr => exact hk.misses hphase hr
  | drains hphase hz => exact { hk with rests := fun _ _ => hz, drafts := by simp }
  | skips _ remark hphase hpos hplan hnext =>
    have hhub : next.hub = site.hub := by rcases hnext with rfl | ⟨text, rfl⟩ <;> rfl
    rw [hhub]
    exact { hk with
      named := fun _ => hk.named hpos
      rests := by simp [appliedOne]
      drafts := by simp [appliedOne]
      records := fun observed g hr hg => .inl (hk.recorded_of_plan hpos hplan hr hg) }
  | begins addon observed hphase hpos hplan =>
    exact { hk with
      rests := by simp
      drafts := fun write g hp hg => by
        cases hp
        exact .inl (Assignment.observed_of_plan (hk.config_eq hpos) hplan hg)
      records := fun observed g _ _ => .inr (.inl hpos) }
  | awaits write call hphase =>
    exact { hk with
      rests := by simp
      drafts := fun write' g hp hg => by
        cases hp
        exact hk.drafts write g hphase hg }
  | commits write text old hphase hcall hold => exact hk.commits site hd hphase hfeed
  | vanishes write hphase h =>
    rcases h with ⟨-, hnone⟩ | ⟨refusal, key, hcall, hfault⟩
    · rw [hd.objectName hphase] at hnone
      exact hk.vanishes site hnone
    · have hr := ((hhonest write hphase).advance site.now write.call.due).1 _ hcall
      exact absurd hfault (hr refusal write.addon.key key rfl)
  | fails write text backoff moment hphase =>
    exact { hk with rests := by simp, drafts := by simp }

end Follower

end AddonWatch

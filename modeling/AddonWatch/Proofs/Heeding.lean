import AddonWatch.Proofs.Minding
import AddonWatch.Proofs.Showing

namespace AddonWatch

/-- Whatever becomes of an addon while a watcher of its reference lives, the generation observed in
it is the one that was there with that reference, or that of the object as it is. -/
def Hub.Heeds (site : Site) (hub : Hub) : Prop :=
  ∀ i a observed generation, site.Live i a → hub.Records a observed →
    hub.Counts a.target generation → site.hub.Records a observed ∨ observed = generation

/-- Every change is told, no reference holds a slash in a coordinate, no stored addon is said to be
missing, and no one changes the generation observed in an addon that is watched. -/
def Surroundings.heeding : Surroundings where
  admits hub := hub.IsSlashFree ∧ hub.writes.Gives Reply.IsHonest
  allows site hub := site.hub.Shows hub ∧ hub.IsSlashFree ∧ hub.writes.Gives Reply.IsHonest ∧
    hub.Heeds site

theorem AddonKey.objectName_inj {a b : AddonKey} (h : a.objectName = b.objectName) : a = b := by
  cases a
  cases b
  simpa [objectName] using h

/-- A watcher keeps up with a hub in which its stream has gone on, a change of its object is told
there, and no other generation has got into the addon. -/
theorem Follower.KeepsUp.keeps {f : Follower} {old new : Hub} (h : f.KeepsUp old) {g k : Feed}
    {more : List Signal} (hg : old.feeds[f.feed]? = some g) (hk : new.feeds[f.feed]? = some k)
    (hc : g.closed = true → k.closed = true) (hq : k.queue = g.queue ++ more)
    (hmore : ∀ sighting : Sighting, .ok sighting ∈ more →
      sighting.object.name = f.assignment.target.name)
    (hcounts : ∀ generation, new.Counts f.assignment.target generation →
      old.Counts f.assignment.target generation ∨ new.Brings f.feed)
    (hrecords : ∀ observed generation, new.Records f.assignment observed →
      new.Counts f.assignment.target generation →
        old.Records f.assignment observed ∨ observed = generation) : f.KeepsUp new := by
  have hbrings : old.Brings f.feed → new.Brings f.feed := by
    rintro ⟨other, ho, hrest⟩
    obtain rfl : g = other := Option.some.inj (hg.symm.trans ho)
    refine ⟨k, hk, hrest.imp hc ?_⟩
    rintro ⟨sighting, hs⟩
    exact ⟨sighting, hq ▸ List.mem_append_left _ hs⟩
  refine ⟨h.named, h.rests, fun other ho sighting hs => ?_, fun write generation hp hn => ?_,
    fun observed generation hr hn => ?_⟩
  · obtain rfl : k = other := Option.some.inj (hk.symm.trans ho)
    rw [hq] at hs
    rcases List.mem_append.mp hs with hold | hnew
    · exact h.stream g hg sighting hold
    · exact hmore sighting hnew
  · rcases hcounts generation hn with ho | hb
    · exact (h.drafts write generation hp ho).imp_right (.imp_right hbrings)
    · exact .inr (.inr hb)
  · rcases hcounts generation hn with ho | hb
    · rcases hrecords observed generation hr hn with hold | he
      · exact (h.records observed generation hold ho).imp_right (.imp_right hbrings)
      · exact .inl he
    · exact .inr (.inr hb)

/-- A watcher keeps up while others pass its stream by and leave its addon alone. -/
theorem Follower.KeepsUp.passes {f : Follower} {old new : Hub} (h : f.KeepsUp old)
    (hp : old.Passes f.feed new)
    (hfeed : ∃ feed : Feed, old.feeds[f.feed]? = some feed ∧ feed.topic = some f.assignment.target)
    (ha : new.addon? f.assignment.key.objectName = old.addon? f.assignment.key.objectName) :
    f.KeepsUp new := by
  obtain ⟨g, hg, ht⟩ := hfeed
  obtain ⟨k, more, hk, -, hc, hq, hmore, -⟩ := hp.feed hg
  refine h.keeps hg hk (fun he => hc.trans he) hq (fun sighting hs => ?_)
    (fun generation hn => .inl (hn.congr hp.configs.symm))
    fun observed generation hr _ => .inl (hr.congr ha.symm)
  rw [hmore (by simp [ht])] at hs
  simp at hs

/-- A watcher that has just been started keeps up, as its stream begins with the object. -/
theorem Follower.KeepsUp.start {policy : RetryPolicy} {a : Assignment} {n : Nat} {old new : Hub}
    {feed : Feed} (hf : new.feeds[n]? = some feed) (hc : new.configs = old.configs)
    (hq : feed.queue = ((old.config? a.target a.target.objectName).map fun config =>
      Except.ok ⟨config.object, true⟩).toList) : (Follower.start policy a n).KeepsUp new := by
  refine ⟨fun h => by simp [Follower.start] at h, fun _ _ => rfl, fun g hg sighting hs => ?_,
    fun write generation hp => by simp [Follower.start] at hp,
    fun observed generation _ hn => .inr (.inr ⟨feed, hf, .inr ?_⟩)⟩
  · obtain rfl : feed = g := Option.some.inj (hf.symm.trans hg)
    rw [hq] at hs
    obtain ⟨config, hconfig, he⟩ := Option.map_eq_some_iff.mp (Option.mem_toList.mp hs)
    cases he
    rw [Hub.config?_object hconfig]
    rfl
  · obtain ⟨-, config, hconfig, -⟩ := hn.congr hc.symm
    rw [hq, show old.config? a.target a.target.objectName = some config from hconfig]
    exact ⟨_, List.mem_singleton_self _⟩

namespace Supervision

variable {s next : Supervision}

theorem Reached.telling (h : s.Reached .heeding) : s.Reached .telling :=
  Reached.mono (v := .heeding) (w := .telling) (fun _ ha => ha.1)
    (fun _ _ ha => ⟨ha.1.tells, ha.2.1⟩) h

theorem Reached.honest (h : s.Reached .heeding) : s.Expects Reply.IsHonest :=
  Reached.expects (w := .heeding) (fun _ ha => ha.2) (fun _ _ ha => ha.2.2.1) h

theorem Reached.feeds_apart (h : s.Reached .telling) : ∀ (i j : Nat) (f g : Follower),
    s.site.bodies[i]? = some (.guarded f) → s.site.bodies[j]? = some (.guarded g) →
      f.feed = g.feed → i = j := by
  induction h using Reached.induct with
  | start s hf ha =>
    intro i j f g hi
    simp [Site.bodies, hf.children] at hi
  | child s site i child f hr hr' hc hrun hb hm ih =>
    have hold := Site.getElem?_bodies.mpr ⟨child, hc, hb⟩
    have hread : ∀ (j : Nat) (g : Follower), site.bodies[j]? = some (.guarded g) →
        ∃ k : Follower, s.site.bodies[j]? = some (.guarded k) ∧ k.feed = g.feed := by
      intro j g hg
      rcases hm.bodies hc hb with he | ⟨after, f', hgo, he⟩
      · exact ⟨g, he ▸ hg, rfl⟩
      · rcases getElem?_set_body he hg with ⟨rfl, rfl⟩ | hg
        · exact ⟨f, hold, hgo.assignment.2.symm⟩
        · exact ⟨g, hg, rfl⟩
    intro j k g g' hj hk hfeed
    obtain ⟨g₀, hg₀, h₀⟩ := hread j g hj
    obtain ⟨g₁, hg₁, h₁⟩ := hread k g' hk
    exact ih j k g₀ g₁ hg₀ hg₁ (h₀.trans (hfeed.trans h₁.symm))
  | desk s site i desk desk' hr hr' hd hm ih =>
    rcases hm.bodies with he | ⟨text, key, attempt, rest, -, he⟩
    · intro j k g g' hj hk
      exact ih j k g g' (he ▸ hj) (he ▸ hk)
    · have hlt : ∀ (j : Nat) (g : Follower), s.site.bodies[j]? = some (.guarded g) →
          g.feed ≠ (attempt.follower s.site).feed := by
        intro j g hg
        obtain ⟨feed, hfeed, -⟩ := hr.channels.bodies j g hg
        exact Nat.ne_of_lt (List.getElem?_eq_some_iff.mp hfeed).1
      intro j k g g' hj hk hfeed
      rcases getElem?_append_body he hj with hj | ⟨rfl, rfl⟩
      · rcases getElem?_append_body he hk with hk | ⟨rfl, rfl⟩
        · exact ih j k g g' hj hk hfeed
        · exact absurd hfeed (hlt j g hj)
      · rcases getElem?_append_body he hk with hk | ⟨rfl, rfl⟩
        · exact absurd hfeed.symm (hlt k g' hk)
        · rfl
  | lead s next hr hr' hm ih =>
    intro j k g g' hj hk
    exact ih j k g g' (hm.bodies ▸ hj) (hm.bodies ▸ hk)
  | hub s hub hr hr' ha ih => exact ih
  | time s moment hr hr' ht ih => exact ih
  | halt s hr hr' ih => exact ih

/-- Every watcher that lives keeps up with the hub. -/
def KeepsUp (s : Supervision) : Prop :=
  ∀ (i : Nat) (f : Follower), s.site.bodies[i]? = some (.guarded f) →
    s.site.Live i f.assignment → f.KeepsUp s.site.hub

/-- The step of one watcher leaves the addon of another that lives as it is. -/
theorem addon?_of_other {site : Site} {i j : Nat} {child : Child} {f : Follower} {a : Assignment}
    (ho : s.Orderly) (hd : f.Drafted) (hc : s.site.children[i]? = some child)
    (hrun : child.condition = .running) (hb : child.body = .guarded f)
    (hm : s.site.ChildMoves i child f site) (hj : s.site.Live j a) (hij : i ≠ j) :
    site.hub.addon? a.key.objectName = s.site.hub.addon? a.key.objectName := by
  rcases hm.hub with hsheds | ⟨after, result, hn, hgo, hsheds⟩
  · exact Hub.addon?_congr _ hsheds.addons
  · rw [Hub.addon?_congr _ hsheds.addons]
    rcases hgo.addons with he | ⟨write, hphase, he⟩
    · exact Hub.addon?_congr _ he
    · have hne : write.addon.objectName ≠ a.key.objectName := fun heq => by
        have hkey : f.assignment.key = a.key :=
          AddonKey.objectName_inj ((hd.objectName hphase).symm.trans heq)
        exact hij (ho.single i j _ a (.of_guarded hc hb hrun hn) hj hkey)
      unfold Hub.addon?
      rw [he]
      exact Hub.find?_insertAddon_of_ne _ hne

theorem KeepsUp.child {site : Site} {i : Nat} {child : Child} {f : Follower} (h : s.KeepsUp)
    (hr : s.Reached .heeding) (hc : s.site.children[i]? = some child)
    (hrun : child.condition = .running) (hb : child.body = .guarded f)
    (hm : s.site.ChildMoves i child f site) :
    ({ s with site := site } : Supervision).KeepsUp := by
  have hbody := Site.getElem?_bodies.mpr ⟨child, hc, hb⟩
  have hd := hr.drafted hbody
  have hfeed := hr.telling.channels.bodies i f hbody
  intro j g hg hl
  have hlive := (hm.ages hc hb).live j _ hl
  by_cases hij : i = j
  · subst hij
    cases hm with
    | stops hn =>
      rw [(hlive.running hc).2.1] at hn
      cases hn
    | goesOn after f' hn hgo =>
      have hc' : after.children[i]? = some child := by rw [hgo.children_eq]; exact hc
      have hlt := (List.getElem?_eq_some_iff.mp (Site.getElem?_bodies.mpr ⟨child, hc', hb⟩)).1
      have hg' : (after.bodies.set i (.guarded f'))[i]? = some (.guarded g) := by
        rw [← Site.bodies_withFollower f' hc' hb]
        exact hg
      rw [List.getElem?_set_self hlt] at hg'
      cases hg'
      have hown := h i f hbody (hgo.assignment.1 ▸ hlive)
      refine hgo.keepsUp hown hd (fun write hw => ?_) hfeed
      exact (hr.honest.bodies i f hbody) write hw
    | ends after ending trace hn hgo =>
      have hfired : ((after.finish i .returned).fire i).Live i g.assignment := hl
      exact absurd hfired (Site.not_live_fire _ i _)
  · have hold : s.site.bodies[j]? = some (.guarded g) := by
      rcases hm.bodies hc hb with he | ⟨after, f', -, he⟩
      · exact he ▸ hg
      · exact (getElem?_set_body he hg).resolve_left fun hself => hij hself.1.symm
    have hapart : f.feed ≠ g.feed := fun he =>
      hij (hr.telling.feeds_apart i j f g hbody hold he)
    exact (h j g hold hlive).passes (hm.passes hapart) (hr.telling.channels.bodies j g hold)
      (addon?_of_other hr.orderly hd hc hrun hb hm hlive hij)

theorem KeepsUp.desk {site : Site} {i : Nat} {desk desk' : Desk} (h : s.KeepsUp)
    (hch : s.Channels) (hm : desk.Moves s.isSealed s.site site desk') :
    ({ s with site := site, desks := s.desks.set i desk' } : Supervision).KeepsUp := by
  have hold : ∀ (j : Nat) (g : Follower), s.site.bodies[j]? = some (.guarded g) →
      site.Live j g.assignment → g.KeepsUp site.hub := by
    intro j g hg hl
    obtain ⟨child, hc, -⟩ := Site.getElem?_bodies.mp hg
    have hlive := hm.grows.live j _ (List.getElem?_eq_some_iff.mp hc).1 hl
    exact (h j g hg hlive).passes (hm.passes g.feed) (hch.bodies j g hg) (hm.addon? _)
  intro j g hg hl
  rcases hm.bodies with he | ⟨text, key, attempt, rest, hphase, he⟩
  · exact hold j g (he ▸ hg) hl
  · rcases getElem?_append_body he hg with hg | ⟨-, rfl⟩
    · exact hold j g hg hl
    · obtain ⟨feed, hfeed, -, hq⟩ := hm.feed_of_spawn hphase he
      exact .start hfeed (hm.passes 0).configs hq

theorem KeepsUp.lead (h : s.KeepsUp) (hch : s.Channels) (hm : s.LeadMoves next) :
    next.KeepsUp := by
  intro j g hg hl
  have hg' : s.site.bodies[j]? = some (.guarded g) := hm.bodies ▸ hg
  have hlive : s.site.Live j g.assignment := by
    obtain ⟨hub, trace, exits, he, -⟩ := hm.shared
    rw [he] at hl
    exact hl
  obtain ⟨feed, hfeed, ht⟩ := hch.bodies j g hg'
  refine (h j g hg' hlive).passes (hm.passes fun n streaming tick hlead hn => ?_) ⟨feed, hfeed, ht⟩
    (Hub.addon?_congr _ hm.addons)
  obtain ⟨f, hf, htopic, -⟩ := hch.lead n streaming tick hlead
  rw [hn, hfeed] at hf
  cases hf
  simp [ht] at htopic

theorem KeepsUp.hub {hub : Hub} (h : s.KeepsUp) (hch : s.Channels) (hs : s.site.hub.Shows hub)
    (hh : hub.Heeds s.site) :
    ({ s with site := { s.site with hub := hub } } : Supervision).KeepsUp := by
  intro j g hg hl
  have hlive : s.site.Live j g.assignment := hl
  obtain ⟨feed, hfeed, ht⟩ := hch.bodies j g hg
  obtain ⟨k, more, hk, hc, hq, hmore, htold⟩ := hs.targets g.feed feed _ hfeed ht
  refine (h j g hg hlive).keeps hfeed hk hc hq hmore (fun generation hn => ?_)
    fun observed generation hr hn => hh j _ observed generation hlive hr hn
  by_cases he : hub.config? g.assignment.target g.assignment.target.objectName =
      s.site.hub.config? g.assignment.target g.assignment.target.objectName
  · obtain ⟨hpos, config, hconfig, hgen⟩ := hn
    exact .inl ⟨hpos, config, he ▸ hconfig, hgen⟩
  · refine .inr ⟨k, hk, (htold he).imp_right ?_⟩
    rintro ⟨sighting, hs⟩
    exact ⟨sighting, hq ▸ List.mem_append_right _ hs⟩

/-- However the steps fall, what a watcher has not recorded it still has before it. -/
theorem Reached.keepsUp (h : s.Reached .heeding) : s.KeepsUp := by
  induction h using Reached.induct with
  | start s hf ha =>
    intro i f hb
    simp [Site.bodies, hf.children] at hb
  | child s site i child f hr hr' hc hrun hb hm ih => exact ih.child hr hc hrun hb hm
  | desk s site i desk desk' hr hr' hd hm ih => exact ih.desk hr.telling.channels hm
  | lead s next hr hr' hm ih => exact ih.lead hr.telling.channels hm
  | hub s hub hr hr' ha ih => exact ih.hub hr.telling.channels ha.1 ha.2.2.2
  | time s moment hr hr' ht ih => exact ih
  | halt s hr hr' ih =>
    intro i f hb hl
    exact absurd hl.1 (by simp)

end Supervision

end AddonWatch

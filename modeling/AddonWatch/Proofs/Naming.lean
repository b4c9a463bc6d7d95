import AddonWatch.Proofs.Telling

namespace AddonWatch

namespace Hub

/-- The stream is of that target, and tells of its object alone. -/
def Serves (hub : Hub) (n : Nat) (target : Target) : Prop :=
  ∃ feed, hub.feeds[n]? = some feed ∧ feed.topic = some target ∧
    ∀ sighting : Sighting, .ok sighting ∈ feed.queue → sighting.object.name = target.name

/-- Every stream of one target tells of its object alone. -/
def IsNamed (hub : Hub) : Prop :=
  ∀ feed ∈ hub.feeds, ∀ target, feed.topic = some target →
    ∀ sighting : Sighting, .ok sighting ∈ feed.queue → sighting.object.name = target.name

/-- The streams are still there, each with its topic. -/
def KeepsTopics (old new : Hub) : Prop :=
  ∀ (n : Nat) (f : Feed), old.feeds[n]? = some f →
    ∃ g : Feed, new.feeds[n]? = some g ∧ g.topic = f.topic

theorem Serves.passes {old new : Hub} {n : Nat} {target : Target} (h : old.Serves n target)
    (hp : old.Passes n new) : new.Serves n target := by
  obtain ⟨f, hf, ht, hq⟩ := h
  obtain ⟨g, more, hg, hgt, -, hgq, hmore, -⟩ := hp.feed hf
  refine ⟨g, hg, hgt.trans ht, fun sighting hs => hq sighting ?_⟩
  rw [hgq, hmore (by simp [ht]), List.append_nil] at hs
  exact hs

/-- Whichever stream a signal is taken from, what is left in this one was there before. -/
theorem Serves.receive {old new : Hub} {n feed : Nat} {target : Target} {signal : Signal}
    (h : old.Serves n target) (hr : old.receive feed = (.signal signal, new)) :
    new.Serves n target := by
  by_cases hn : feed = n
  · subst hn
    obtain ⟨f, hf, ht, hq⟩ := h
    obtain ⟨g, rest, hg, hgq, rfl⟩ := receive_signal hr
    obtain rfl : f = g := Option.some.inj (hf.symm.trans hg)
    refine ⟨{ f with queue := rest }, by simp [hf], ht, fun sighting hs => hq sighting ?_⟩
    rw [hgq]
    exact List.mem_cons_of_mem _ hs
  · exact h.passes (passes_receive hr hn)

theorem Serves.name_eq {old new : Hub} {n : Nat} {target : Target} {sighting : Sighting}
    (h : old.Serves n target) (hr : old.receive n = (.signal (.ok sighting), new)) :
    sighting.object.name = target.name := by
  obtain ⟨f, hf, -, hq⟩ := h
  obtain ⟨g, rest, hg, hgq, -⟩ := receive_signal hr
  obtain rfl : f = g := Option.some.inj (hf.symm.trans hg)
  exact hq sighting (by simp [hgq])

theorem Serves.named {old new : Hub} {n : Nat} {target : Target} (h : old.Serves n target)
    (hkeeps : old.KeepsTopics new) (hnamed : new.IsNamed) : new.Serves n target := by
  obtain ⟨f, hf, ht, -⟩ := h
  obtain ⟨g, hg, hgt⟩ := hkeeps n f hf
  exact ⟨g, hg, hgt.trans ht, hnamed g (List.mem_of_getElem? hg) target (hgt.trans ht)⟩

end Hub

/-- No reference holds a slash in a coordinate, and the streams of one target tell of its object
alone. -/
def Surroundings.naming : Surroundings where
  admits := Hub.IsSlashFree
  allows site hub := hub.IsSlashFree ∧ site.hub.KeepsTopics hub ∧ hub.IsNamed

namespace Follower

/-- The watcher reads a stream that tells of its object alone, and knows that by its name as soon as
a sighting waits. -/
structure IsNamed (f : Follower) (hub : Hub) : Prop where
  served : hub.Serves f.feed f.assignment.target
  named : 0 < f.unapplied → f.name = f.assignment.target.name

theorem Moves.serves {f : Follower} {i n : Nat} {site next : Site} {target : Target}
    {result : Follower ⊕ Ending} (h : f.Moves i site next result)
    (hs : site.hub.Serves n target) : next.hub.Serves n target := by
  rcases h.takes_or_passes with hp | ⟨signal, hr⟩
  · exact hs.passes (hp n)
  · exact hs.receive hr

theorem Moves.named {f f' : Follower} {i : Nat} {site next : Site}
    (h : f.Moves i site next (.inl f')) (hf : f.IsNamed site.hub) (hpos : 0 < f'.unapplied) :
    f'.name = f.assignment.target.name := by
  cases h with
  | sights sighting hub hphase hr => exact hf.served.name_eq hr
  | skips next remark hphase hpos' => exact hf.named hpos'
  | drains hphase hnone => exact hf.named hpos
  | commits => exact hf.named (by simp only [appliedOne] at hpos; omega)
  | vanishes => exact hf.named (by simp only [appliedOne] at hpos; omega)
  | _ => exact hf.named hpos

/-- The object that a watcher looks at is the one of its target. -/
theorem IsNamed.config_eq {f : Follower} {hub : Hub} (h : f.IsNamed hub) (hpos : 0 < f.unapplied) :
    f.assignment.configName f.name = f.assignment.target.objectName := by
  rw [h.named hpos]
  rfl

end Follower

namespace Supervision

theorem Reached.faithful_naming {s : Supervision} (h : s.Reached .naming) : s.Faithful :=
  Reached.faithful_of_isSlashFree (w := .naming) (fun _ ha => ha) (fun _ _ ha => ha.1) h

/-- Every watcher reads a stream that tells of its object alone. -/
def IsNamed (s : Supervision) : Prop :=
  ∀ (i : Nat) (f : Follower), s.site.bodies[i]? = some (.guarded f) → f.IsNamed s.site.hub

namespace IsNamed

variable {s next : Supervision} {i : Nat}

theorem child {site : Site} {child : Child} {f : Follower} (h : s.IsNamed)
    (hc : s.site.children[i]? = some child) (hb : child.body = .guarded f)
    (hm : s.site.ChildMoves i child f site) : ({ s with site := site } : Supervision).IsNamed := by
  have hserves : ∀ {n : Nat} {target : Target}, s.site.hub.Serves n target →
      site.hub.Serves n target := by
    intro n target hs
    rcases hm.hub with hsheds | ⟨after, result, -, hgo, hsheds⟩
    · exact hs.passes (.sheds _ _ hsheds)
    · exact (hgo.serves hs).passes (.sheds _ _ hsheds)
  have hown := h i f (Site.getElem?_bodies.mpr ⟨child, hc, hb⟩)
  have hold : ∀ (j : Nat) (g : Follower), s.site.bodies[j]? = some (.guarded g) →
      g.IsNamed site.hub := fun j g hg => ⟨hserves (h j g hg).served, (h j g hg).named⟩
  intro j g hg
  rcases hm.bodies hc hb with he | ⟨after, f', hgo, he⟩
  · exact hold j g (he ▸ hg)
  · rcases getElem?_set_body he hg with ⟨rfl, rfl⟩ | hg
    · obtain ⟨ha, hfeed⟩ := hgo.assignment
      refine ⟨?_, fun hpos => ?_⟩
      · rw [ha, hfeed]
        exact hserves hown.served
      · rw [ha]
        exact hgo.named hown hpos
    · exact hold j g hg

theorem desk {site : Site} {desk desk' : Desk} (h : s.IsNamed)
    (hm : desk.Moves s.isSealed s.site site desk') :
    ({ s with site := site, desks := s.desks.set i desk' } : Supervision).IsNamed := by
  have hold : ∀ (j : Nat) (g : Follower), s.site.bodies[j]? = some (.guarded g) →
      g.IsNamed site.hub := fun j g hg =>
    ⟨(h j g hg).served.passes (hm.passes g.feed), (h j g hg).named⟩
  intro j g hg
  rcases hm.bodies with he | ⟨text, key, attempt, rest, hphase, he⟩
  · exact hold j g (he ▸ hg)
  · rcases getElem?_append_body he hg with hg | ⟨-, rfl⟩
    · exact hold j g hg
    · obtain ⟨feed, hfeed, ht, hq⟩ := hm.feed_of_spawn hphase he
      refine ⟨⟨feed, hfeed, ht, fun sighting hs => ?_⟩, fun hpos => ?_⟩
      · rw [hq] at hs
        obtain ⟨config, hconfig, he⟩ := Option.map_eq_some_iff.mp (Option.mem_toList.mp hs)
        cases he
        rw [Hub.config?_object hconfig]
        rfl
      · simp [Opening.follower, Follower.start] at hpos

theorem lead (h : s.IsNamed) (hm : s.LeadMoves next) : next.IsNamed := by
  intro j g hg
  have hown := h j g (hm.bodies ▸ hg)
  refine ⟨?_, hown.named⟩
  rcases hm.hub with hsheds | hsheds | ⟨feed, streaming, tick, signal, hlead, hr⟩
  · exact hown.served.passes (.sheds _ _ hsheds)
  · exact hown.served.passes (.trans _ _ _ (.opens s.site.hub _ _) (.sheds _ _ hsheds))
  · exact hown.served.receive hr

end IsNamed

theorem Reached.named {s : Supervision} (h : s.Reached .naming) : s.IsNamed := by
  induction h using Reached.induct with
  | start s hf ha =>
    intro i f hb
    simp [Site.bodies, hf.children] at hb
  | child s site i child f hr hr' hc hrun hb hm ih => exact ih.child hc hb hm
  | desk s site i desk desk' hr hr' hd hm ih => exact ih.desk hm
  | lead s next hr hr' hm ih => exact ih.lead hm
  | hub s hub hr hr' ha ih =>
    intro j g hg
    exact ⟨(ih j g hg).served.named ha.2.1 ha.2.2, (ih j g hg).named⟩
  | time s moment hr hr' ht ih => exact ih
  | halt s hr hr' ih => exact ih

end Supervision

end AddonWatch

import AddonWatch.Proofs.Faithful

namespace AddonWatch

/-- Anyone may change the hub, as long as every stream of all addons goes on, and is told of every
addon that has changed; the streams of one target keep their targets. -/
structure Hub.Tells (old new : Hub) : Prop where
  addons : ∀ (n : Nat) (f : Feed), old.feeds[n]? = some f → f.topic = none →
    ∃ (g : Feed) (more : List Signal), new.feeds[n]? = some g ∧ g.topic = none ∧
      g.closed = f.closed ∧ g.queue = f.queue ++ more ∧
      ∀ object, new.addon? object ≠ old.addon? object →
        ∃ present, (.ok ⟨object, present⟩ : Signal) ∈ more
  targets : ∀ (n : Nat) (f : Feed), old.feeds[n]? = some f → f.topic ≠ none →
    ∃ g : Feed, new.feeds[n]? = some g ∧ g.topic = f.topic

/-- Every change of an addon is told, and no reference holds a slash in a coordinate. -/
def Surroundings.telling : Surroundings where
  admits := Hub.IsSlashFree
  allows site hub := site.hub.Tells hub ∧ hub.IsSlashFree

theorem Hub.receive_keeps {hub next : Hub} {feed n : Nat} {signal : Signal} {f : Feed}
    (h : hub.receive feed = (.signal signal, next)) (hf : hub.feeds[n]? = some f) :
    ∃ g : Feed, next.feeds[n]? = some g ∧ g.topic = f.topic ∧ g.closed = f.closed := by
  obtain ⟨_, rest, -, -, rfl⟩ := receive_signal h
  by_cases hn : feed = n
  · exact ⟨{ f with queue := rest }, by simp [hn, hf], rfl, rfl⟩
  · exact ⟨f, by simp [hn, hf], rfl, rfl⟩

theorem Hub.Passes.keeps {n : Nat} {old new : Hub} {f : Feed} (h : old.Passes n new)
    (hf : old.feeds[n]? = some f) :
    ∃ g : Feed, new.feeds[n]? = some g ∧ g.topic = f.topic ∧ g.closed = f.closed := by
  obtain ⟨g, more, hg, ht, hc, -⟩ := h.feed hf
  exact ⟨g, hg, ht, hc⟩

/-- A watcher takes a signal from its own stream, or passes all streams by. -/
theorem Follower.Moves.takes_or_passes {f : Follower} {i : Nat} {site next : Site}
    {result : Follower ⊕ Ending} (h : f.Moves i site next result) :
    (∀ n, site.hub.Passes n next.hub) ∨
      ∃ signal, site.hub.receive f.feed = (.signal signal, next.hub) := by
  cases h with
  | sights sighting hub hphase hr => exact .inr ⟨_, hr⟩
  | misses fault hub text hphase hr => exact .inr ⟨_, hr⟩
  | misreads => exact .inl fun n => .calls _ _ rfl rfl rfl
  | skips _ _ _ _ _ hnext =>
    rcases hnext with rfl | ⟨text, rfl⟩ <;> exact .inl fun n => .refl n _
  | begins => exact .inl fun n => .calls _ _ rfl rfl rfl
  | commits write => exact .inl fun n => .stores site.hub write.addon
  | _ => exact .inl fun n => .refl n _

theorem Site.ChildMoves.keeps {site next : Site} {i n : Nat} {child : Child} {f : Follower}
    {g : Feed} (h : site.ChildMoves i child f next) (hg : site.hub.feeds[n]? = some g) :
    ∃ k : Feed, next.hub.feeds[n]? = some k ∧ k.topic = g.topic ∧ k.closed = g.closed := by
  rcases h.hub with hsheds | ⟨after, result, -, hm, hsheds⟩
  · exact (Hub.Passes.sheds _ _ hsheds).keeps hg
  · have hafter : ∃ k : Feed, after.hub.feeds[n]? = some k ∧ k.topic = g.topic ∧
        k.closed = g.closed := by
      rcases hm.takes_or_passes with hp | ⟨signal, hr⟩
      · exact (hp n).keeps hg
      · exact Hub.receive_keeps hr hg
    obtain ⟨k, hk, ht, hc⟩ := hafter
    obtain ⟨l, hl, ht', hc'⟩ := (Hub.Passes.sheds _ _ hsheds).keeps (n := n) hk
    exact ⟨l, hl, ht'.trans ht, hc'.trans hc⟩

/-- The stream that a new watcher reads is the one just opened for it, which brings the object if
that is there. -/
theorem Desk.Moves.feed_of_spawn {desk desk' : Desk} {isSealed : Bool} {site site' : Site}
    {text : String} {key : AddonKey} {attempt : Opening} {rest : List String}
    (h : desk.Moves isSealed site site' desk')
    (hphase : desk.phase = .reconciling text (.opening key attempt) rest)
    (hb : site'.bodies = site.bodies ++ [.guarded (attempt.follower site)]) :
    ∃ g : Feed, site'.hub.feeds[(attempt.follower site).feed]? = some g ∧
      g.topic = some attempt.assignment.target ∧ g.queue = ((site.hub.config?
        attempt.assignment.target attempt.assignment.target.objectName).map fun config =>
          Except.ok ⟨config.object, true⟩).toList := by
  have hgrown : site'.bodies ≠ site.bodies := fun he => by simp [he] at hb
  rcases h.effect with hw | ⟨_, work, _, _, next, _, hphase', hm, hw⟩
  · exact absurd hw.bodies hgrown
  · cases hphase.symm.trans hphase'
    rcases hm.effect with ⟨mid, hmid, rfl | ⟨k, r, rfl⟩⟩ | ⟨k, o, ho, hbegun⟩
    · exact absurd (hw.bodies.trans hmid.bodies) hgrown
    · exact absurd (hw.bodies.trans hmid.bodies) hgrown
    · cases ho
      have hfeed : (attempt.begin site).1.hub.feeds[site.hub.feeds.length]? = some
          { topic := some attempt.assignment.target, queue := ((site.hub.config?
            attempt.assignment.target attempt.assignment.target.objectName).map fun config =>
              Except.ok ⟨config.object, true⟩).toList } := List.getElem?_concat_length
      obtain ⟨g, more, hg, ht, -, hq, hmore, -⟩ :=
        (hbegun.trans hw).passes site.hub.feeds.length |>.feed hfeed
      refine ⟨g, hg, ht, ?_⟩
      rw [hq, hmore (by simp), List.append_nil]

namespace Supervision

theorem LeadMoves.keeps {s next : Supervision} {n : Nat} {g : Feed} (h : s.LeadMoves next)
    (hg : s.site.hub.feeds[n]? = some g) :
    ∃ k : Feed, next.site.hub.feeds[n]? = some k ∧ k.topic = g.topic ∧ k.closed = g.closed := by
  rcases h.hub with hsheds | hsheds | ⟨feed, streaming, tick, signal, hlead, hr⟩
  · exact (Hub.Passes.sheds _ _ hsheds).keeps hg
  · exact (Hub.Passes.trans _ _ _ (.opens s.site.hub _ _) (.sheds _ _ hsheds)).keeps hg
  · exact Hub.receive_keeps hr hg

/-- What watchers and desks are at is of references without slashes in their coordinates, like the
ones that the hub stores. -/
structure Faithful (s : Supervision) : Prop where
  hub : s.site.hub.IsSlashFree
  bodies : ∀ (i : Nat) (f : Follower), s.site.bodies[i]? = some (.guarded f) →
    f.assignment.IsFaithful
  desks : ∀ desk ∈ s.desks, ∀ text work rest, desk.phase = .reconciling text work rest →
    work.IsFaithful

theorem Faithful.child {s : Supervision} {site : Site} {i : Nat} {child : Child} {f : Follower}
    (h : s.Faithful) (hd : f.Drafted) (hc : s.site.children[i]? = some child)
    (hb : child.body = .guarded f) (hm : s.site.ChildMoves i child f site) :
    ({ s with site := site } : Supervision).Faithful := by
  have hown := h.bodies i f (Site.getElem?_bodies.mpr ⟨child, hc, hb⟩)
  refine ⟨?_, ?_, h.desks⟩
  · rcases hm.addons with he | ⟨write, hphase, he⟩
    · intro addon ha
      exact h.hub addon (he ▸ ha)
    · intro addon ha reference hr
      rcases Hub.mem_insertAddon (he ▸ ha) with rfl | hold
      · obtain ⟨old, r, hwith, -, hor, hfp⟩ := hd write hphase
        obtain ⟨origin, hfree, hf, -⟩ := hown
        rw [hwith] at hr
        exact Addon.isSlashFree_withObserved hor (hfree.of_fingerprint (hfp.trans hf)) hr
      · exact h.hub addon hold reference hr
  · intro j g hg
    rcases hm.bodies hc hb with he | ⟨after, f', hgo, he⟩
    · exact h.bodies j g (he ▸ hg)
    · rcases getElem?_set_body he hg with ⟨-, rfl⟩ | hold
      · exact hgo.assignment.1 ▸ hown
      · exact h.bodies j g hold

theorem Faithful.desk {s : Supervision} {site : Site} {i : Nat} {desk desk' : Desk}
    (h : s.Faithful) (hd : s.desks[i]? = some desk)
    (hm : desk.Moves s.isSealed s.site site desk') :
    ({ s with site := site, desks := s.desks.set i desk' } : Supervision).Faithful := by
  have hown := h.desks desk (List.mem_of_getElem? hd)
  refine ⟨fun addon ha => h.hub addon (hm.addons ▸ ha), fun j g hg => ?_, fun other ho => ?_⟩
  · rcases hm.bodies with he | ⟨text, key, attempt, rest, hphase, he⟩
    · exact h.bodies j g (he ▸ hg)
    · rcases getElem?_append_body he hg with hold | ⟨-, rfl⟩
      · exact h.bodies j g hold
      · exact hown _ _ _ hphase
  · rcases List.mem_or_eq_of_mem_set ho with hold | rfl
    · exact h.desks other hold
    · intro text work rest hphase
      cases hm with
      | begins => cases hphase; trivial
      | turns alarms hidle => exact hown text work rest hphase
      | goesOn key old work' rest' next roster hat hh hgo =>
        cases hphase
        exact hgo.faithful h.hub (hown _ _ _ hat)
      | concludes key old rest' next after roster verdict _ hat hh hgo hc =>
        cases hc with
        | forgets _ _ _ _ _ _ _ _ hf =>
          obtain ⟨alarms, rfl, -⟩ := Desk.forget_eq hf
          cases hphase
        | retries _ _ _ hr =>
          obtain ⟨id, alarms, rfl, -⟩ := Desk.retryLater_eq hr
          cases hphase
        | _ => cases hphase
      | _ => cases hphase

theorem Faithful.lead {s next : Supervision} (h : s.Faithful) (hm : s.LeadMoves next) :
    next.Faithful := by
  refine ⟨fun addon ha => h.hub addon (hm.addons ▸ ha), hm.bodies ▸ h.bodies, ?_⟩
  exact hm.forall_desks (fun _ _ _ _ _ hp => by simp at hp) (fun _ _ hfaithful => hfaithful) h.desks

theorem Reached.faithful_of_isSlashFree {w : Surroundings} {s : Supervision}
    (hadmits : ∀ hub, w.admits hub → hub.IsSlashFree)
    (hallows : ∀ site hub, w.allows site hub → hub.IsSlashFree) (h : s.Reached w) :
    s.Faithful := by
  induction h using Reached.induct with
  | start s hf ha =>
    exact ⟨hadmits _ ha, fun i f hb => by simp [Site.bodies, hf.children] at hb,
      fun desk hd => by simp [hf.desks] at hd⟩
  | child s site i child f hr hr' hc hrun hb hm ih =>
    exact ih.child (hr.drafted (Site.getElem?_bodies.mpr ⟨child, hc, hb⟩)) hc hb hm
  | desk s site i desk desk' hr hr' hd hm ih => exact ih.desk hd hm
  | lead s next hr hr' hm ih => exact ih.lead hm
  | hub s hub hr hr' ha ih => exact ⟨hallows _ _ ha, ih.bodies, ih.desks⟩
  | time s moment hr hr' ht ih => exact ⟨ih.hub, ih.bodies, ih.desks⟩
  | halt s hr hr' ih => exact ⟨ih.hub, ih.bodies, ih.desks⟩

theorem Reached.faithful {s : Supervision} (h : s.Reached .telling) : s.Faithful :=
  Reached.faithful_of_isSlashFree (w := .telling) (fun _ ha => ha) (fun _ _ ha => ha.2) h

/-- The stream of the leading task is open and of all addons, that of a watcher is of its target. -/
structure Channels (s : Supervision) : Prop where
  lead : ∀ feed streaming tick, s.lead = .leading feed streaming tick →
    ∃ f : Feed, s.site.hub.feeds[feed]? = some f ∧ f.topic = none ∧ f.closed = false
  bodies : ∀ (i : Nat) (f : Follower), s.site.bodies[i]? = some (.guarded f) →
    ∃ g : Feed, s.site.hub.feeds[f.feed]? = some g ∧ g.topic = some f.assignment.target

theorem Channels.keeps {s next : Supervision} (h : s.Channels)
    (hkeeps : ∀ (n : Nat) (f : Feed), s.site.hub.feeds[n]? = some f →
      ∃ g : Feed, next.site.hub.feeds[n]? = some g ∧ g.topic = f.topic ∧
        (f.topic = none → g.closed = f.closed))
    (hlead : ∀ feed streaming tick, next.lead = .leading feed streaming tick →
      (∃ streaming tick, s.lead = .leading feed streaming tick) ∨
        ∃ f : Feed, next.site.hub.feeds[feed]? = some f ∧ f.topic = none ∧ f.closed = false)
    (hbodies : ∀ (i : Nat) (f : Follower), next.site.bodies[i]? = some (.guarded f) →
      (∃ g : Follower, s.site.bodies[i]? = some (.guarded g) ∧ f.feed = g.feed ∧
        f.assignment = g.assignment) ∨
      ∃ g : Feed, next.site.hub.feeds[f.feed]? = some g ∧ g.topic = some f.assignment.target) :
    next.Channels := by
  refine ⟨fun feed streaming tick hl => ?_, fun i f hb => ?_⟩
  · rcases hlead feed streaming tick hl with ⟨st, ti, hold⟩ | hnew
    · obtain ⟨f, hf, ht, hc⟩ := h.lead feed st ti hold
      obtain ⟨g, hg, hgt, hgc⟩ := hkeeps feed f hf
      exact ⟨g, hg, hgt.trans ht, (hgc ht).trans hc⟩
    · exact hnew
  · rcases hbodies i f hb with ⟨g, hold, hfeed, ha⟩ | hnew
    · obtain ⟨k, hk, ht⟩ := h.bodies i g hold
      obtain ⟨l, hl, hlt, -⟩ := hkeeps g.feed k hk
      exact ⟨l, by rw [hfeed, hl], by rw [hlt, ht, ha]⟩
    · exact hnew

theorem LeadMoves.leading {s next : Supervision} (hm : s.LeadMoves next) {feed : Nat} {tick : Span}
    {streaming : Bool} (hl : next.lead = .leading feed streaming tick) :
    (∃ streaming tick, s.lead = .leading feed streaming tick) ∨
      (∃ call deadline, s.lead = .opening call deadline) ∧ next = s.begin ∧
        feed = s.site.hub.feeds.length ∧ next.site.hub = s.site.hub.openAddons.1 := by
  cases hm with
  | begins call deadline hlead =>
    right
    unfold begin at hl ⊢
    dsimp only at hl ⊢
    split at hl
    next => cases hl
    next =>
      cases hl
      exact ⟨⟨call, deadline, hlead⟩, rfl, rfl, rfl⟩
  | reports _ ti st key rest hlead =>
    rw [(handsOut_dispatch _ key).lead, hlead] at hl
    cases hl
    exact .inl ⟨_, _, hlead⟩
  | sees _ ti sighting hub hlead =>
    rw [(handsOut_dispatch _ sighting.object.text).lead, hlead] at hl
    cases hl
    exact .inl ⟨_, _, hlead⟩
  | overlooks => exact .inl ⟨streaming, tick, hl⟩
  | resyncs _ ti fault hub text hlead =>
    obtain ⟨more, hout⟩ := handsOut_resync
      (({ s with site := { s.site with hub := hub } } : Supervision).log .warn text)
    rw [hout.lead] at hl
    exact .inl ⟨streaming, tick, hl⟩
  | outlives _ ti hub text hlead =>
    cases hl
    exact .inl ⟨_, _, hlead⟩
  | ticks _ ti st hlead =>
    cases hl
    exact .inl ⟨_, _, hlead⟩
  | _ => cases hl

theorem Reached.channels {s : Supervision} (h : s.Reached .telling) : s.Channels := by
  induction h using Reached.induct with
  | start s hf ha =>
    exact ⟨fun feed streaming tick hl => by simp [hf.lead] at hl,
      fun i f hb => by simp [Site.bodies, hf.children] at hb⟩
  | child s site i child f hr hr' hc hrun hb hm ih =>
    refine ih.keeps (fun n g hg => ?_) (fun _ streaming tick hl => .inl ⟨streaming, tick, hl⟩)
      fun j g hg => .inl ?_
    · obtain ⟨k, hk, ht, hcl⟩ := hm.keeps hg
      exact ⟨k, hk, ht, fun _ => hcl⟩
    · rcases hm.bodies hc hb with he | ⟨after, f', hgo, he⟩
      · exact ⟨g, he ▸ hg, rfl, rfl⟩
      · rcases getElem?_set_body he hg with ⟨rfl, rfl⟩ | hold
        · have hbody := Site.getElem?_bodies.mpr ⟨child, hc, hb⟩
          exact ⟨f, hbody, hgo.assignment.2, hgo.assignment.1⟩
        · exact ⟨g, hold, rfl, rfl⟩
  | desk s site i desk desk' hr hr' hd hm ih =>
    refine ih.keeps (fun n g hg => ?_) (fun _ streaming tick hl => .inl ⟨streaming, tick, hl⟩)
      fun j g hg => ?_
    · obtain ⟨k, hk, ht, hcl⟩ := (hm.passes n).keeps hg
      exact ⟨k, hk, ht, fun _ => hcl⟩
    · rcases hm.bodies with he | ⟨text, key, attempt, rest, hphase, he⟩
      · exact .inl ⟨g, he ▸ hg, rfl, rfl⟩
      · rcases getElem?_append_body he hg with hold | ⟨-, rfl⟩
        · exact .inl ⟨g, hold, rfl, rfl⟩
        · obtain ⟨k, hk, ht, -⟩ := hm.feed_of_spawn hphase he
          exact .inr ⟨k, hk, ht⟩
  | lead s next hr hr' hm ih =>
    refine ih.keeps (fun n g hg => ?_) (fun feed streaming tick hl => ?_)
      fun j g hg => .inl ⟨g, hm.bodies ▸ hg, rfl, rfl⟩
    · obtain ⟨k, hk, ht, hcl⟩ := hm.keeps hg
      exact ⟨k, hk, ht, fun _ => hcl⟩
    · rcases hm.leading hl with hold | ⟨-, -, rfl, he⟩
      · exact .inl hold
      · exact .inr ⟨_, by rw [he]; exact List.getElem?_concat_length, rfl, rfl⟩
  | hub s hub hr hr' ha ih =>
    refine ih.keeps (fun n g hg => ?_) (fun _ streaming tick hl => .inl ⟨streaming, tick, hl⟩)
      fun j g hg => .inl ⟨g, hg, rfl, rfl⟩
    by_cases ht : g.topic = none
    · obtain ⟨k, more, hk, hkt, hkc, -⟩ := ha.1.addons n g hg ht
      exact ⟨k, hk, hkt.trans ht.symm, fun _ => hkc⟩
    · obtain ⟨k, hk, hkt⟩ := ha.1.targets n g hg ht
      exact ⟨k, hk, hkt, fun h => absurd h ht⟩
  | time s moment hr hr' ht ih => exact ⟨ih.lead, ih.bodies⟩
  | halt s hr hr' ih => exact ⟨ih.lead, ih.bodies⟩

end Supervision

end AddonWatch

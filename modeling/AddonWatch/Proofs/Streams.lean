import AddonWatch.Proofs.Drafts

namespace AddonWatch

theorem Feed.push_of_closed {f : Feed} (h : f.closed = true) (signal : Signal) :
    f.push signal = f := by
  simp [push, h]

theorem Feed.push_of_open {f : Feed} (h : f.closed = false) (signal : Signal) :
    f.push signal = { f with queue := f.queue ++ [signal] } := by
  simp [push, h]

namespace Hub

/-- A sighting of that object waits in the stream. -/
def Holds (hub : Hub) (n : Nat) (object : ObjectName) : Prop :=
  ∃ f, hub.feeds[n]? = some f ∧ ∃ present, .ok ⟨object, present⟩ ∈ f.queue

/-- What tasks do to a hub without taking anything from one of its streams. -/
inductive Passes (n : Nat) : Hub → Hub → Prop
  | sheds (old new : Hub) (h : old.Sheds new) : Passes n old new
  | calls (old new : Hub) (haddons : new.addons = old.addons) (hconfigs : new.configs = old.configs)
      (hfeeds : new.feeds = old.feeds) : Passes n old new
  | takes (old : Hub) (feed : Nat) (rest : List Signal) (h : feed ≠ n) :
      Passes n old { old with feeds := old.feeds.modify feed fun f => { f with queue := rest } }
  | opens (old : Hub) (topic : Option Target) (first : List Signal) :
      Passes n old (old.openFeed topic first).1
  | stores (old : Hub) (addon : Addon) :
      Passes n old ((old.storeAddon addon).announceAddon addon.objectName true)
  | trans (old mid new : Hub) (h : Passes n old mid) (h' : Passes n mid new) : Passes n old new

protected theorem Passes.refl (n : Nat) (hub : Hub) : hub.Passes n hub :=
  .calls hub hub rfl rfl rfl

theorem find?_insertAddon_self (addon : Addon) (addons : List Addon) :
    (insertAddon addon addons).find? (fun other => other.objectName = addon.objectName) =
      some addon := by
  induction addons with
  | nil => simp [insertAddon]
  | cons other rest ih =>
    unfold insertAddon
    split
    · simp
    · split
      · simp
      next hne _ => simp [hne, ih]

theorem find?_insertAddon_of_ne {addon : Addon} {object : ObjectName} (addons : List Addon)
    (h : addon.objectName ≠ object) :
    (insertAddon addon addons).find? (fun other => other.objectName = object) =
      addons.find? fun other => other.objectName = object := by
  induction addons with
  | nil => simp [insertAddon, h]
  | cons other rest ih =>
    unfold insertAddon
    split
    next he => simp [h, he]
    next =>
      split
      · simp [h]
      · simp only [List.find?_cons, ih]

theorem addon?_stores_self (hub : Hub) (addon : Addon) :
    ((hub.storeAddon addon).announceAddon addon.objectName true).addon? addon.objectName =
      some addon :=
  find?_insertAddon_self addon hub.addons

theorem addon?_stores_of_ne (hub : Hub) {addon : Addon} {object : ObjectName}
    (h : addon.objectName ≠ object) :
    ((hub.storeAddon addon).announceAddon addon.objectName true).addon? object =
      hub.addon? object :=
  find?_insertAddon_of_ne hub.addons h

theorem feeds_announceAddon (hub : Hub) {n : Nat} {f : Feed} (h : hub.feeds[n]? = some f)
    (object : ObjectName) (present : Bool) : (hub.announceAddon object present).feeds[n]? =
      some (if f.topic = none then f.push (.ok ⟨object, present⟩) else f) := by
  simp [announceAddon, broadcast, h]

/-- A stream keeps its topic and what it holds. The stream of all addons gets a sighting of every
one that has changed, as long as it is not closed, and other streams get nothing. -/
theorem Passes.feed {n : Nat} {old new : Hub} (h : old.Passes n new) {f : Feed}
    (hf : old.feeds[n]? = some f) : ∃ g more, new.feeds[n]? = some g ∧ g.topic = f.topic ∧
      g.closed = f.closed ∧ g.queue = f.queue ++ more ∧ (f.topic ≠ none → more = []) ∧
      (f.topic = none → f.closed = false → ∀ object, new.addon? object ≠ old.addon? object →
        ∃ present, (.ok ⟨object, present⟩ : Signal) ∈ more) := by
  induction h generalizing f with
  | sheds old new h =>
    obtain ⟨held, hnew⟩ := h.feeds n
    refine ⟨{ f with held := held }, [], by simp [hnew, hf], rfl, rfl, by simp, fun _ => rfl, ?_⟩
    intro _ _ object hne
    exact absurd (by simp [addon?, h.addons]) hne
  | calls old new haddons hconfigs hfeeds =>
    refine ⟨f, [], by rw [hfeeds, hf], rfl, rfl, by simp, fun _ => rfl, ?_⟩
    intro _ _ object hne
    exact absurd (by simp [addon?, haddons]) hne
  | takes old feed rest hne =>
    refine ⟨f, [], by simp [hne, hf], rfl, rfl, by simp, fun _ => rfl, ?_⟩
    intro _ _ object hne
    exact absurd rfl hne
  | opens old topic first =>
    have hlt := (List.getElem?_eq_some_iff.mp hf).1
    refine ⟨f, [], ?_, rfl, rfl, by simp, fun _ => rfl, ?_⟩
    · rw [openFeed, List.getElem?_append_left hlt]
      exact hf
    · intro _ _ object hne
      exact absurd rfl hne
  | stores old addon =>
    have hnew := feeds_announceAddon (old.storeAddon addon) hf addon.objectName true
    by_cases ht : f.topic = none
    · rw [if_pos ht] at hnew
      cases hc : f.closed with
      | true =>
        rw [Feed.push_of_closed hc] at hnew
        exact ⟨f, [], hnew, rfl, hc, by simp, fun _ => rfl, fun _ h => by cases h⟩
      | false =>
        rw [Feed.push_of_open hc] at hnew
        refine ⟨_, [.ok ⟨addon.objectName, true⟩], hnew, rfl, hc, rfl, fun h => absurd ht h, ?_⟩
        intro _ _ object hne
        by_cases hobject : addon.objectName = object
        · exact ⟨true, by simp [hobject]⟩
        · exact absurd (addon?_stores_of_ne old hobject) hne
    · rw [if_neg ht] at hnew
      exact ⟨f, [], hnew, rfl, rfl, by simp, fun _ => rfl, fun h => absurd h ht⟩
  | trans old mid new h h' ih ih' =>
    obtain ⟨g, more, hg, hgt, hgc, hgq, hgm, hgo⟩ := ih hf
    obtain ⟨k, most, hk, hkt, hkc, hkq, hkm, hko⟩ := ih' hg
    refine ⟨k, more ++ most, hk, hkt.trans hgt, hkc.trans hgc, by rw [hkq, hgq, List.append_assoc],
      fun ht => ?_, fun ht hc object hne => ?_⟩
    · rw [hgm ht, hkm (hgt ▸ ht), List.append_nil]
    · by_cases hmid : mid.addon? object = old.addon? object
      · obtain ⟨present, hp⟩ := hko (hgt.trans ht) (hgc.trans hc) object (hmid ▸ hne)
        exact ⟨present, List.mem_append_right _ hp⟩
      · obtain ⟨present, hp⟩ := hgo ht hc object hmid
        exact ⟨present, List.mem_append_left _ hp⟩

theorem Passes.configs {n : Nat} {old new : Hub} (h : old.Passes n new) :
    new.configs = old.configs := by
  induction h with
  | sheds old new h => exact h.configs
  | calls old new haddons hconfigs => exact hconfigs
  | trans old mid new h h' ih ih' => exact ih'.trans ih
  | _ => rfl

end Hub

theorem Site.WindsDown.passes {site next : Site} (h : site.WindsDown next) (n : Nat) :
    site.hub.Passes n next.hub :=
  .sheds _ _ h.hub

theorem Reconciling.Moves.passes {work : Reconciling} {site next : Site} {roster roster' : Roster}
    {result : Reconciling ⊕ Verdict} (h : work.Moves site roster next roster' result) (n : Nat) :
    site.hub.Passes n next.hub := by
  rcases h.effect with ⟨mid, hw, rfl | ⟨key, reference, rfl⟩⟩ | ⟨key, attempt, -, hw⟩
  · exact hw.passes n
  · exact .trans _ _ _ (hw.passes n) (.calls _ _ rfl rfl rfl)
  · exact .trans _ _ _ (.opens site.hub _ _) (hw.passes n)

theorem Desk.Moves.passes {desk desk' : Desk} {isSealed : Bool} {site site' : Site}
    (h : desk.Moves isSealed site site' desk') (n : Nat) : site.hub.Passes n site'.hub := by
  rcases h.effect with hw | ⟨_, _, _, _, _, _, -, hm, hw⟩
  · exact hw.passes n
  · exact .trans _ _ _ (hm.passes n) (hw.passes n)

theorem Hub.passes_receive {hub next : Hub} {n feed : Nat} {signal : Signal}
    (h : hub.receive feed = (.signal signal, next)) (hn : feed ≠ n) : hub.Passes n next := by
  obtain ⟨_, rest, -, -, rfl⟩ := Hub.receive_signal h
  exact .takes hub feed rest hn

/-- A watcher takes signals from no stream but its own. -/
theorem Follower.Moves.passes {f : Follower} {i n : Nat} {site next : Site}
    {result : Follower ⊕ Ending} (h : f.Moves i site next result) (hn : f.feed ≠ n) :
    site.hub.Passes n next.hub := by
  cases h with
  | sights sighting hub hphase hr => exact Hub.passes_receive hr hn
  | misses fault hub text hphase hr => exact Hub.passes_receive hr hn
  | misreads => exact .calls _ _ rfl rfl rfl
  | skips _ _ _ _ _ hnext => rcases hnext with rfl | ⟨text, rfl⟩ <;> exact .refl n _
  | begins => exact .calls _ _ rfl rfl rfl
  | commits write => exact .stores site.hub write.addon
  | _ => exact .refl n _

theorem Site.ChildMoves.passes {site next : Site} {i n : Nat} {child : Child} {f : Follower}
    (h : site.ChildMoves i child f next) (hn : f.feed ≠ n) : site.hub.Passes n next.hub := by
  rcases h.hub with hsheds | ⟨after, result, -, hm, hsheds⟩
  · exact .sheds _ _ hsheds
  · exact .trans _ _ _ (hm.passes hn) (.sheds _ _ hsheds)

namespace Supervision

theorem LeadMoves.passes {s next : Supervision} {n : Nat} (h : s.LeadMoves next)
    (hn : ∀ feed streaming tick, s.lead = .leading feed streaming tick → feed ≠ n) :
    s.site.hub.Passes n next.site.hub := by
  rcases h.hub with hsheds | hsheds | ⟨feed, streaming, tick, signal, hlead, hr⟩
  · exact .sheds _ _ hsheds
  · exact .trans _ _ _ (.opens s.site.hub _ _) (.sheds _ _ hsheds)
  · exact Hub.passes_receive hr (hn feed streaming tick hlead)

end Supervision

end AddonWatch

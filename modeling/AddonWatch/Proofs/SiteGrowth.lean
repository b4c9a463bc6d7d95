import AddonWatch.Proofs.Run
import AddonWatch.Proofs.WindingDown

namespace AddonWatch

namespace Follower.Moves

theorem ages {f : Follower} {i : Nat} {site next : Site} {result : Follower ⊕ Ending}
    (h : f.Moves i site next result) : site.Ages next := by
  obtain ⟨hub, trace, rfl⟩ := h.site_eq
  exact .hub_trace site hub trace site.exits

theorem children_eq {f : Follower} {i : Nat} {site next : Site} {result : Follower ⊕ Ending}
    (h : f.Moves i site next result) : next.children = site.children := by
  obtain ⟨hub, trace, rfl⟩ := h.site_eq
  rfl

end Follower.Moves

namespace Site

/-- Going on as another follower of the same assignment is no new task. -/
theorem ages_withFollower {site : Site} {i : Nat} {child : Child} {f f' : Follower}
    (hc : site.children[i]? = some child) (hb : child.body = .guarded f)
    (ha : f'.assignment = f.assignment) : site.Ages (site.setChild i (·.withFollower f')) := by
  refine .setChild site i ?_ ?_ ?_
  · intro other ho
    obtain rfl : child = other := Option.some.inj (hc.symm.trans ho)
    simp [Child.assignment?, Child.withFollower, hb, ha]
  · intro other ho
    unfold Child.withFollower at ho
    split at ho <;> exact ho
  · intro other ho
    unfold Child.withFollower at ho
    split at ho <;> exact ho

theorem live_withFollower {site : Site} {i : Nat} {child : Child} {f f' : Follower}
    (hc : site.children[i]? = some child) (hb : child.body = .guarded f)
    (ha : f'.assignment = f.assignment) {a : Assignment} (hl : site.Live i a) :
    (site.setChild i (·.withFollower f')).Live i a := by
  obtain ⟨hh, other, ho, hassign, hf, hr⟩ := hl
  obtain rfl : child = other := Option.some.inj (hc.symm.trans ho)
  refine ⟨hh, child.withFollower f', ?_, ?_, ?_, ?_⟩
  · rw [getElem?_setChild, if_pos rfl, hc]
    rfl
  · rw [← hassign]
    simp [Child.assignment?, Child.withFollower, hb, ha]
  · simpa [Child.withFollower, hb] using hf
  · simpa [Child.withFollower, hb] using hr

namespace ChildMoves

variable {site next : Site} {i : Nat} {child : Child} {f : Follower}

theorem ages (hc : site.children[i]? = some child) (hb : child.body = .guarded f)
    (h : site.ChildMoves i child f next) : site.Ages next := by
  cases h with
  | stops => exact .finish site i (by simp)
  | goesOn after f' hn hm =>
    have hc' : after.children[i]? = some child := by rw [hm.children_eq]; exact hc
    exact hm.ages.trans (ages_withFollower hc' hb hm.assignment.1)
  | ends after ending trace hn hm hw =>
    exact hm.ages.trans ((Ages.finish after i (by simp)).trans ((Ages.fire _ i).trans
      (.hub_trace _ _ trace _)))

theorem now (h : site.ChildMoves i child f next) : next.now = site.now := by
  cases h with
  | stops => rfl
  | goesOn after f' hn hm =>
    obtain ⟨hub, trace, rfl⟩ := hm.site_eq
    rfl
  | ends after ending trace hn hm =>
    obtain ⟨hub, left, rfl⟩ := hm.site_eq
    rfl

theorem live_of_ne (h : site.ChildMoves i child f next) {j : Nat} {a : Assignment} (hj : i ≠ j)
    (hl : site.Live j a) : next.Live j a := by
  cases h with
  | stops => exact (live_finish_of_ne hj).mpr hl
  | goesOn after f' hn hm =>
    obtain ⟨hub, trace, rfl⟩ := hm.site_eq
    exact (live_setChild_of_ne hj).mpr hl
  | ends after ending trace hn hm hw =>
    obtain ⟨hub, trace', rfl⟩ := hm.site_eq
    exact (live_fire_of_ne hj).mpr ((live_finish_of_ne hj).mpr hl)

theorem mem_exits (h : site.ChildMoves i child f next) {text : String}
    (ht : text ∈ site.exits) : text ∈ next.exits := by
  cases h with
  | stops => exact ht
  | goesOn after f' hn hm =>
    obtain ⟨hub, trace, rfl⟩ := hm.site_eq
    exact ht
  | ends after ending trace hn hm hw =>
    obtain ⟨hub, trace', rfl⟩ := hm.site_eq
    dsimp only
    split
    · exact List.mem_append_left _ ht
    · exact ht

/-- A watcher that lives goes on living, or its key is reported. -/
theorem live_self (hc : site.children[i]? = some child) (hb : child.body = .guarded f)
    (hreports : site.reportsExits = true) (h : site.ChildMoves i child f next) {a : Assignment}
    (hl : site.Live i a) : next.Live i a ∨ a.key.text ∈ next.exits := by
  have ha : f.assignment = a := by
    have := hl.assignment?
    rw [assignment?, hc] at this
    simpa [Child.assignment?, hb] using this
  cases h with
  | stops hn =>
    rw [(hl.running hc).2.1] at hn
    cases hn
  | goesOn after f' hn hm =>
    left
    have hc' : after.children[i]? = some child := by rw [hm.children_eq]; exact hc
    obtain ⟨hub, trace, rfl⟩ := hm.site_eq
    exact live_withFollower hc' hb hm.assignment.1 hl
  | ends after ending trace hn hm hw =>
    right
    obtain ⟨hub, trace', rfl⟩ := hm.site_eq
    rw [ha]
    simp [hreports]

/-- A watcher goes on, or its task is over. -/
theorem goesOn_or_finished (h : site.ChildMoves i child f next) :
    (∃ after f', f.Moves i site after (.inl f') ∧
      next = after.setChild i (·.withFollower f')) ∨ next.isFinished i = true := by
  cases h with
  | stops => exact .inr (isFinished_finish i (by simp))
  | goesOn after f' hn hm => exact .inl ⟨after, f', hm, rfl⟩
  | ends after ending trace hn hm hw =>
    right
    have hdone : (after.finish i .returned).isFinished i = true := isFinished_finish i (by simp)
    have hages := Ages.fire (after.finish i .returned) i
    by_contra hne
    have hup := hages.running i (eq_false_of_ne_true hne)
    rw [hdone] at hup
    cases hup

/-- A watcher does to the hub what its follower does, and lets go of its stream when it ends. -/
theorem hub (h : site.ChildMoves i child f next) :
    site.hub.Sheds next.hub ∨ ∃ after result, site.isCancelled child = false ∧
      f.Moves i site after result ∧ after.hub.Sheds next.hub := by
  cases h with
  | stops => exact .inl (WindsDown.finish site i (by simp)).hub
  | goesOn after f' hn hm => exact .inr ⟨after, _, hn, hm, .refl _⟩
  | ends after ending trace hn hm hw =>
    have hw := WindsDown.finish after i (show Condition.returned ≠ .running by simp)
    exact .inr ⟨after, _, hn, hm, hw.hub⟩

theorem bodies (hc : site.children[i]? = some child) (hb : child.body = .guarded f)
    (h : site.ChildMoves i child f next) :
    next.bodies = site.bodies ∨ ∃ after f', f.Moves i site after (.inl f') ∧
      next.bodies = site.bodies.set i (.guarded f') := by
  cases h with
  | stops => exact .inl (WindsDown.finish site i (by simp)).bodies
  | goesOn after f' hn hm =>
    refine .inr ⟨after, f', hm, ?_⟩
    obtain ⟨hub, trace, rfl⟩ := hm.site_eq
    exact bodies_withFollower f' hc hb
  | ends after ending trace hn hm hw =>
    obtain ⟨hub, trace', rfl⟩ := hm.site_eq
    have hw := WindsDown.finish { site with hub := hub, trace := trace' } i
      (show Condition.returned ≠ .running by simp)
    exact .inl (hw.trans (.fire _ i)).bodies

end ChildMoves

end Site

namespace Opening

theorem start_ages (key : AddonKey) (reference : Reference) (site : Site) :
    site.Ages (Opening.start key reference site).1 :=
  .hub_trace site { site.hub with opens := site.hub.opens.take.2 } _ site.exits

/-- The child that an opened subscription starts, on the site that the hub has opened it in. -/
theorem begin_eq (o : Opening) (site : Site) :
    o.begin site =
      ((({ site with hub := (site.hub.openConfig o.assignment.target).1 } : Site).spawn
        (.guarded (.start site.settings.retry o.assignment
          (site.hub.openConfig o.assignment.target).2))).1,
        ⟨o.assignment.fingerprint, site.children.length⟩) := rfl

/-- What a subscription that has been opened begins with. -/
def follower (o : Opening) (site : Site) : Follower :=
  .start site.settings.retry o.assignment site.hub.feeds.length

theorem bodies_begin (o : Opening) (site : Site) :
    (o.begin site).1.bodies = site.bodies ++ [.guarded (o.follower site)] := by
  rw [begin_eq]
  simp [Site.bodies, Site.spawn, follower, Hub.openConfig, Hub.openFeed]

theorem live_begin {o : Opening} {site : Site} {i : Nat} {a : Assignment}
    (h : (o.begin site).1.Live i a) :
    site.Live i a ∨ i = site.children.length ∧ a = o.assignment := by
  rw [begin_eq] at h
  rcases Site.live_spawn h with hold | ⟨rfl, ha⟩
  · exact .inl hold
  · exact .inr ⟨rfl, (Option.some.inj ha).symm⟩

theorem live_begin_of_lt {o : Opening} {site : Site} {i : Nat} {a : Assignment}
    (h : site.Live i a) : (o.begin site).1.Live i a := by
  rw [begin_eq]
  exact (Site.live_spawn_of_lt h.lt_length).mpr h

theorem live_begin_self (o : Opening) {site : Site} (hh : site.halted = false) :
    (o.begin site).1.Live site.children.length o.assignment := by
  rw [begin_eq]
  exact ⟨hh, _, Site.getElem?_spawn_self _ _, rfl, rfl, rfl⟩

end Opening

/-- Every child is a watcher that reports its own end. -/
def Site.Staffed (site : Site) : Prop :=
  ∀ i, i < site.children.length → ∃ a, site.assignment? i = some a

theorem Site.Staffed.guarded {site : Site} {i : Nat} {child : Child} (h : site.Staffed)
    (hc : site.children[i]? = some child) : ∃ f, child.body = .guarded f := by
  obtain ⟨a, ha⟩ := h i (List.getElem?_eq_some_iff.mp hc).1
  simp only [Site.assignment?, hc, Option.bind_some] at ha
  obtain ⟨f, hb, -⟩ := Child.guarded_of_assignment? ha
  exact ⟨f, hb⟩

theorem Site.Ages.staffed {old new : Site} (h : old.Ages new) (hs : old.Staffed) :
    new.Staffed := by
  intro i hi
  obtain ⟨a, ha⟩ := hs i (h.length ▸ hi)
  exact ⟨a, (h.assignment i).trans ha⟩

theorem Opening.assignment?_begin (o : Opening) (site : Site) :
    (o.begin site).1.assignment? site.children.length = some o.assignment := by
  rw [begin_eq]
  unfold Site.assignment?
  rw [Site.getElem?_spawn_self]
  rfl

theorem Opening.length_begin (o : Opening) (site : Site) :
    (o.begin site).1.children.length = site.children.length + 1 := by
  simp [begin_eq, Site.spawn]

theorem Opening.grows_begin (o : Opening) (site : Site) : site.Grows (o.begin site).1 := by
  rw [begin_eq]
  have hhub := Site.Ages.hub_trace site (site.hub.openConfig o.assignment.target).1 site.trace
    site.exits
  exact hhub.grows.trans (.spawn _ _)

theorem Opening.staffed_begin (o : Opening) {site : Site} (hs : site.Staffed) :
    (o.begin site).1.Staffed := by
  intro i hi
  rw [length_begin] at hi
  rcases Nat.lt_or_eq_of_le (Nat.le_of_lt_succ hi) with hlt | rfl
  · obtain ⟨a, ha⟩ := hs i hlt
    exact ⟨a, ((o.grows_begin site).assignment i hlt).trans ha⟩
  · exact ⟨_, o.assignment?_begin site⟩

namespace Reconciling.Moves

variable {work : Reconciling} {site next : Site} {roster roster' : Roster}
  {result : Reconciling ⊕ Verdict}

/-- A reconciliation winds watchers down, and then perhaps asks for a subscription; or it starts the
watcher for the one that it asked for. -/
theorem effect (h : work.Moves site roster next roster' result) :
    (∃ mid, site.WindsDown mid ∧
      (next = mid ∨ ∃ key reference, next = (Opening.start key reference mid).1)) ∨
    ∃ key attempt, work = .opening key attempt ∧ (attempt.begin site).1.WindsDown next := by
  cases h with
  | stops text key handle line note =>
    exact .inl ⟨_, .announced site line .stopped key note handle.child, .inl rfl⟩
  | asks text key addon reference => exact .inl ⟨site, .refl site, .inr ⟨_, _, rfl⟩⟩
  | replaces text key addon reference handle trace hp ha hd hg hcurrent hw =>
    exact .inl ⟨_, (Site.WindsDown.remarks hw).trans (.fire _ handle.child), .inl rfl⟩
  | stopped settling _ hs => exact .inl ⟨_, hs.windsDown, .inl rfl⟩
  | replaced key addon reference settling after hs =>
    exact .inl ⟨after, hs.windsDown, .inr ⟨_, _, rfl⟩⟩
  | builds key attempt line note =>
    exact .inr ⟨key, attempt, rfl, (Site.WindsDown.log _ _ _).trans (.note _ _ _ _)⟩
  | _ => exact .inl ⟨site, .refl site, .inl rfl⟩

theorem ages_or_begins (h : work.Moves site roster next roster' result) :
    site.Ages next ∨ ∃ key attempt, work = .opening key attempt ∧
      (attempt.begin site).1.Ages next := by
  rcases h.effect with ⟨mid, hw, rfl | ⟨key, reference, rfl⟩⟩ | ⟨key, attempt, hwork, hw⟩
  · exact .inl hw.ages
  · exact .inl (hw.ages.trans (Opening.start_ages key reference mid))
  · exact .inr ⟨key, attempt, hwork, hw.ages⟩

theorem grows (h : work.Moves site roster next roster' result) : site.Grows next := by
  rcases h.ages_or_begins with hages | ⟨key, attempt, -, hages⟩
  · exact hages.grows
  · exact (attempt.grows_begin site).trans hages.grows

theorem halted (h : work.Moves site roster next roster' result) : next.halted = site.halted := by
  rcases h.ages_or_begins with hages | ⟨key, attempt, -, hages⟩
  · exact hages.halted
  · exact hages.halted

theorem staffed (h : work.Moves site roster next roster' result) (hs : site.Staffed) :
    next.Staffed := by
  rcases h.ages_or_begins with hages | ⟨key, attempt, -, hages⟩
  · exact hages.staffed hs
  · exact hages.staffed (attempt.staffed_begin hs)

theorem writes (h : work.Moves site roster next roster' result) : next.writes = site.writes := by
  rcases h.effect with ⟨mid, hw, rfl | ⟨key, reference, rfl⟩⟩ | ⟨key, attempt, -, hw⟩
  · exact hw.writes
  · exact hw.writes
  · exact hw.writes

theorem exits (h : work.Moves site roster next roster' result) : next.exits = site.exits := by
  rcases h.effect with ⟨mid, hw, rfl | ⟨key, reference, rfl⟩⟩ | ⟨key, attempt, -, hw⟩
  · exact hw.exits
  · exact hw.exits
  · exact hw.exits

theorem now (h : work.Moves site roster next roster' result) : next.now = site.now := by
  rcases h.effect with ⟨mid, hw, rfl | ⟨key, reference, rfl⟩⟩ | ⟨key, attempt, -, hw⟩
  · exact hw.now
  · exact hw.now
  · exact hw.now

theorem bodies (h : work.Moves site roster next roster' result) :
    next.bodies = site.bodies ∨ ∃ key attempt, work = .opening key attempt ∧
      next.bodies = site.bodies ++ [.guarded (attempt.follower site)] := by
  rcases h.effect with ⟨mid, hw, rfl | ⟨key, reference, rfl⟩⟩ | ⟨key, attempt, hwork, hw⟩
  · exact .inl hw.bodies
  · exact .inl hw.bodies
  · exact .inr ⟨key, attempt, hwork, hw.bodies.trans (attempt.bodies_begin site)⟩

end Reconciling.Moves

end AddonWatch

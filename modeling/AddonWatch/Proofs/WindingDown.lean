import AddonWatch.Proofs.HubView
import AddonWatch.Proofs.ReconcilingMoves

namespace AddonWatch

namespace Site

/-- What the child tasks run, in the order in which they were spawned. -/
def bodies (site : Site) : List Body :=
  site.children.map Child.body

theorem bodies_setChild (site : Site) (i : Nat) {change : Child → Child}
    (h : ∀ child, (change child).body = child.body) :
    (site.setChild i change).bodies = site.bodies := by
  apply List.ext_getElem?
  intro j
  simp only [bodies, setChild, List.getElem?_map, List.getElem?_modify]
  cases site.children[j]? with
  | none => rfl
  | some child =>
    by_cases hij : i = j
    · simp [hij, h]
    · simp [hij]

theorem bodies_withFollower {site : Site} {i : Nat} {child : Child} {f : Follower}
    (f' : Follower) (hc : site.children[i]? = some child) (hb : child.body = .guarded f) :
    (site.setChild i (·.withFollower f')).bodies = site.bodies.set i (.guarded f') := by
  apply List.ext_getElem?
  intro j
  simp only [bodies, setChild, List.getElem?_map, List.getElem?_modify, List.getElem?_set,
    List.length_map]
  by_cases hij : i = j
  · subst hij
    obtain ⟨hlt, hget⟩ := List.getElem?_eq_some_iff.mp hc
    simp [hlt, hget, Child.withFollower, hb]
  · simp [hij]

theorem getElem?_bodies {site : Site} {i : Nat} {f : Follower} :
    site.bodies[i]? = some (.guarded f) ↔
      ∃ child, site.children[i]? = some child ∧ child.body = .guarded f := by
  simp [bodies]

/-- Children are told to stop or have stopped; apart from that there are remarks, and streams
without a reader. -/
structure WindsDown (old new : Site) : Prop where
  ages : old.Ages new
  hub : old.hub.Sheds new.hub
  bodies : new.bodies = old.bodies
  writes : new.writes = old.writes
  exits : new.exits = old.exits
  now : new.now = old.now

namespace WindsDown

protected theorem refl (site : Site) : site.WindsDown site :=
  ⟨.refl site, .refl site.hub, rfl, rfl, rfl, rfl⟩

protected theorem trans {a b c : Site} (hab : a.WindsDown b) (hbc : b.WindsDown c) :
    a.WindsDown c where
  ages := hab.ages.trans hbc.ages
  hub := hab.hub.trans hbc.hub
  bodies := hbc.bodies.trans hab.bodies
  writes := hbc.writes.trans hab.writes
  exits := hbc.exits.trans hab.exits
  now := hbc.now.trans hab.now

theorem remarks {site : Site} {trace : List Mark}
    (h : ({ site with trace := trace } : Site).writes = site.writes) :
    site.WindsDown { site with trace := trace } :=
  ⟨.hub_trace site site.hub trace site.exits, .refl site.hub, rfl, h, rfl, rfl⟩

theorem log (site : Site) (level : Level) (text : String) :
    site.WindsDown (site.log level text) :=
  .remarks rfl

theorem note (site : Site) (notice : Notice) (key : AddonKey) (text : String) :
    site.WindsDown (site.note notice key text) :=
  .remarks rfl

theorem fire (site : Site) (i : Nat) : site.WindsDown (site.fire i) :=
  ⟨.fire site i, .refl site.hub, site.bodies_setChild i fun _ => rfl, rfl, rfl, rfl⟩

theorem finish (site : Site) (i : Nat) {condition : Condition} (h : condition ≠ .running) :
    site.WindsDown (site.finish i condition) := by
  refine ⟨.finish site i h, ?_, bodies_setChild _ i fun _ => rfl, rfl, rfl, rfl⟩
  unfold Site.finish
  dsimp only [setChild]
  split
  · exact .releaseFeed _ _
  · exact .refl _

theorem abort (site : Site) (i : Nat) : site.WindsDown (site.abort i) := by
  unfold Site.abort
  split
  · split
    · exact .refl site
    · exact .finish site i (by simp)
  · exact .refl site

/-- A watcher is told to stop, and that is told. -/
theorem announced (site : Site) (line : String) (notice : Notice) (key : AddonKey) (note : String)
    (i : Nat) : site.WindsDown (((site.log .info line).note notice key note).fire i) :=
  (log site .info line).trans ((WindsDown.note _ notice key note).trans (.fire _ i))

end WindsDown

end Site

namespace Settling.Moves

theorem windsDown {s : Settling} {site next : Site} (h : s.Moves site next) :
    site.WindsDown next := by
  cases h with
  | ended => exact .refl site
  | panicked text => exact .log site .error text
  | aborts text => exact (Site.WindsDown.log site .warn text).trans (.abort _ _)

/-- A child that has been waited for has ended, one way or another. -/
theorem finished {s : Settling} {site next : Site} (h : s.Moves site next) :
    next.isFinished s.handle.child = true := by
  cases h with
  | ended hf => exact hf
  | panicked text hf => exact hf
  | aborts text => exact Site.isFinished_abort _ _

theorem live_iff {s : Settling} {site next : Site} {i : Nat} {a : Assignment}
    (h : s.Moves site next) (hi : s.handle.child ≠ i) : next.Live i a ↔ site.Live i a := by
  cases h with
  | ended => exact Iff.rfl
  | panicked text => exact Iff.rfl
  | aborts text => exact Site.live_abort_of_ne hi

end Settling.Moves

namespace Closing

theorem foldl_fire_windsDown (entries : List (AddonKey × Handle)) (site : Site) :
    site.WindsDown (entries.foldl (fun site e => site.fire e.2.child) site) := by
  induction entries generalizing site with
  | nil => exact .refl site
  | cons e rest ih => exact (Site.WindsDown.fire site e.2.child).trans (ih (site.fire e.2.child))

theorem start_windsDown (roster : Roster) (grace : Span) (site : Site) :
    site.WindsDown (Closing.start roster grace site).1 :=
  foldl_fire_windsDown roster.entries site

/-- No child of a roster that closes is left without its cancel trigger fired. -/
theorem not_live_start {roster : Roster} {grace : Span} {site : Site} {e : AddonKey × Handle}
    (h : e ∈ roster.entries) (a : Assignment) :
    ¬(Closing.start roster grace site).1.Live e.2.child a := by
  have hfold : ∀ (entries : List (AddonKey × Handle)) (site : Site), e ∈ entries →
      ¬(entries.foldl (fun site e => site.fire e.2.child) site).Live e.2.child a := by
    intro entries
    induction entries with
    | nil => simp
    | cons first rest ih =>
      intro site hm hl
      rcases List.mem_cons.mp hm with rfl | hm
      · exact Site.not_live_fire site e.2.child a ((foldl_fire_windsDown rest _).ages.live _ _ hl)
      · exact ih _ hm hl
  exact hfold roster.entries site h

theorem settleOne_windsDown {pending rest : List (AddonKey × Settling)} {site next : Site}
    (h : settleOne site pending = some (next, rest)) : site.WindsDown next := by
  induction pending generalizing rest with
  | nil => simp [settleOne] at h
  | cons e others ih =>
    obtain ⟨key, settling⟩ := e
    unfold settleOne at h
    split at h
    next after hs =>
      cases h
      exact (Settling.step_moves hs).windsDown
    next after hs =>
      cases h
      exact (Settling.step_moves hs).windsDown.trans (.log after _ _)
    next =>
      obtain ⟨⟨after, left⟩, hs, h⟩ := Option.map_eq_some_iff.mp h
      cases h
      exact ih hs

/-- What is no longer waited for has ended. -/
theorem settleOne_finished {pending rest : List (AddonKey × Settling)} {site next : Site}
    (h : settleOne site pending = some (next, rest)) :
    ∀ e ∈ pending, e ∈ rest ∨ next.isFinished e.2.handle.child = true := by
  induction pending generalizing rest with
  | nil => simp
  | cons first others ih =>
    intro e he
    obtain ⟨key, settling⟩ := first
    unfold settleOne at h
    split at h
    next after hs =>
      cases h
      rcases List.mem_cons.mp he with rfl | he
      · exact .inr (Settling.step_moves hs).finished
      · exact .inl he
    next after hs =>
      cases h
      rcases List.mem_cons.mp he with rfl | he
      · exact .inr (Settling.step_moves hs).finished
      · exact .inl he
    next =>
      obtain ⟨⟨after, left⟩, hs, h⟩ := Option.map_eq_some_iff.mp h
      cases h
      rcases List.mem_cons.mp he with rfl | he
      · exact .inl List.mem_cons_self
      · exact (ih hs e he).imp_left (List.mem_cons_of_mem _)

theorem step_finished {c c' : Closing} {site next : Site}
    (h : c.step site = some (next, some c')) :
    ∀ e ∈ c.pending, e ∈ c'.pending ∨ next.isFinished e.2.handle.child = true := by
  unfold Closing.step at h
  split at h
  · cases h
  · obtain ⟨⟨after, left⟩, hs, h⟩ := Option.map_eq_some_iff.mp h
    cases h
    exact settleOne_finished hs

/-- Only when nothing is waited for any more does a roster count as closed. -/
theorem pending_of_step_none {c : Closing} {site next : Site}
    (h : c.step site = some (next, none)) : c.pending = [] := by
  unfold Closing.step at h
  split at h
  next hempty => exact List.isEmpty_iff.mp hempty
  next =>
    obtain ⟨_, _, h⟩ := Option.map_eq_some_iff.mp h
    cases h

theorem step_windsDown {c : Closing} {site next : Site} {result : Option Closing}
    (h : c.step site = some (next, result)) : site.WindsDown next := by
  unfold Closing.step at h
  split at h
  · cases h
    exact .refl site
  · obtain ⟨⟨after, left⟩, hs, h⟩ := Option.map_eq_some_iff.mp h
    cases h
    exact settleOne_windsDown hs

end Closing

end AddonWatch

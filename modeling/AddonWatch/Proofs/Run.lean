import AddonWatch.Proofs.DeskMoves
import AddonWatch.Proofs.LeadMoves

namespace AddonWatch

/-- What goes on around a supervision: which hubs it may find, and to what hub anyone else may turn
the one it works with at any time. -/
structure Surroundings where
  admits : Hub → Prop
  allows : Site → Hub → Prop

/-- Both are known of the surroundings. -/
def Surroundings.both (v w : Surroundings) : Surroundings where
  admits hub := v.admits hub ∧ w.admits hub
  allows site hub := v.allows site hub ∧ w.allows site hub

namespace Supervision

/-- A supervision that has been started and has done nothing yet. -/
structure IsFresh (s : Supervision) : Prop where
  lead : s.lead = .fresh
  desks : s.desks = []
  children : s.site.children = []
  exits : s.site.exits = []
  trace : s.site.trace = []
  reports : s.site.reportsExits = true

/-- What can happen next: a task takes its next step, the surroundings change the hub, time goes
by, or the scope is cancelled. -/
inductive Moves (w : Surroundings) (s : Supervision) : Supervision → Prop
  | task (t : Task) (next : Supervision) (h : s.step t = some next) : Moves w s next
  | hub (hub : Hub) (h : w.allows s.site hub) :
      Moves w s { s with site := { s.site with hub := hub } }
  | time (moment : Nat) (h : s.site.now ≤ moment) :
      Moves w s { s with site := { s.site with now := moment } }
  | halt : Moves w s { s with site := { s.site with halted := true } }

/-- The states that a run comes to, whichever task goes on and whatever happens around it. -/
inductive Reached (w : Surroundings) : Supervision → Prop
  | start (s : Supervision) (hf : s.IsFresh) (ha : w.admits s.site.hub) : Reached w s
  | next (s s' : Supervision) (h : Reached w s) (hm : s.Moves w s') : Reached w s'

/-- The states that a run comes to from there on. -/
inductive Later (w : Surroundings) (s : Supervision) : Supervision → Prop
  | refl : Later w s s
  | next (mid s' : Supervision) (h : Later w s mid) (hm : mid.Moves w s') : Later w s s'

theorem Reached.mono {v w : Surroundings} {s : Supervision}
    (hadmits : ∀ hub, v.admits hub → w.admits hub)
    (hallows : ∀ site hub, v.allows site hub → w.allows site hub) (h : s.Reached v) :
    s.Reached w := by
  induction h with
  | start s hf ha => exact .start s hf (hadmits _ ha)
  | next s s' _ hm ih =>
    refine .next s s' ih ?_
    cases hm with
    | task t _ hstep => exact .task t _ hstep
    | hub hub ha => exact .hub hub (hallows _ _ ha)
    | time moment ht => exact .time moment ht
    | halt => exact .halt

theorem Reached.left {v w : Surroundings} {s : Supervision} (h : s.Reached (.both v w)) :
    s.Reached v :=
  h.mono (fun _ => And.left) fun _ _ => And.left

theorem Reached.later {w : Surroundings} {s s' : Supervision} (h : s.Reached w)
    (hl : s.Later w s') : s'.Reached w := by
  induction hl with
  | refl => exact h
  | next mid s' _ hm ih => exact .next mid s' ih hm

/-- No task can go on without time passing or a change around it. -/
def IsAtRest (s : Supervision) : Prop :=
  ∀ t, s.step t = none

/-- The tasks go on in that order, one step each. -/
def play (s : Supervision) : List Task → Option Supervision
  | [] => some s
  | t :: rest => (s.step t).bind fun next => next.play rest

theorem Reached.play {w : Surroundings} {s s' : Supervision} {tasks : List Task}
    (h : s.Reached w) (hp : s.play tasks = some s') : s'.Reached w := by
  induction tasks generalizing s with
  | nil => exact Option.some.inj hp ▸ h
  | cons t rest ih =>
    obtain ⟨mid, hstep, hrest⟩ := Option.bind_eq_some_iff.mp hp
    exact ih (.next s mid h (.task t mid hstep)) hrest

theorem Later.play {w : Surroundings} {s mid later : Supervision} {tasks : List Task}
    (h : s.Later w mid)
    (hp : mid.play tasks = some later) : s.Later w later := by
  induction tasks generalizing mid with
  | nil => exact Option.some.inj hp ▸ h
  | cons t rest ih =>
    obtain ⟨next, hstep, hrest⟩ := Option.bind_eq_some_iff.mp hp
    exact ih (.next mid next h (.task t next hstep)) hrest

theorem step_of_stepDesk {s next : Supervision} {i : Nat} (h : s.stepDesk i = some next) :
    ∃ desk desk' site, s.desks[i]? = some desk ∧
      desk.step s.isSealed s.site = some (site, desk') ∧
      next = { s with site := site, desks := s.desks.set i desk' } := by
  obtain ⟨desk, hdesk, h⟩ := Option.bind_eq_some_iff.mp h
  obtain ⟨⟨site, desk'⟩, hstep, h⟩ := Option.bind_eq_some_iff.mp h
  cases h
  exact ⟨desk, desk', site, hdesk, hstep, rfl⟩

theorem stepDesk_cases {s next : Supervision} {i : Nat} (h : s.stepDesk i = some next) :
    ∃ desk desk' site, s.desks[i]? = some desk ∧ desk.Moves s.isSealed s.site site desk' ∧
      next = { s with site := site, desks := s.desks.set i desk' } := by
  obtain ⟨desk, desk', site, hdesk, hstep, he⟩ := step_of_stepDesk h
  exact ⟨desk, desk', site, hdesk, Desk.step_moves hstep, he⟩

theorem stepChild_cases {s next : Supervision} {i : Nat} (h : s.stepChild i = some next) :
    ∃ site, s.site.stepChild i = some site ∧ next = { s with site := site } := by
  obtain ⟨site, hstep, rfl⟩ := Option.map_eq_some_iff.mp h
  exact ⟨site, hstep, rfl⟩

theorem partition_set_desk (s : Supervision) (site : Site) (i : Nat) (desk : Desk)
    (key : String) : ({ s with site := site, desks := s.desks.set i desk } : Supervision).partition
      key = s.partition key := by
  simp [partition]

theorem getElem?_set_desk {desks : List Desk} {i j : Nat} {desk desk' found : Desk}
    (hi : desks[i]? = some desk) (h : (desks.set i desk')[j]? = some found) :
    j = i ∧ found = desk' ∨ j ≠ i ∧ desks[j]? = some found := by
  by_cases hij : i = j
  · subst hij
    have hlt := (List.getElem?_eq_some_iff.mp hi).1
    rw [List.getElem?_set_self hlt] at h
    exact .inl ⟨rfl, (Option.some.inj h).symm⟩
  · rw [List.getElem?_set_ne hij] at h
    exact .inr ⟨fun h => hij h.symm, h⟩

end Supervision

end AddonWatch

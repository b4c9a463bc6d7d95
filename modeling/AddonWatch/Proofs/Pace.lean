import AddonWatch.Proofs.Minding

namespace AddonWatch

namespace Site

/-- The clock, the settings and the scope are the same, and so are all children but that one. -/
structure Spares (i : Nat) (old new : Site) : Prop where
  now : new.now = old.now
  settings : new.settings = old.settings
  halted : new.halted = old.halted
  children : ∀ j, j ≠ i → new.children[j]? = old.children[j]?

variable {site next : Site} {i j : Nat}

namespace Spares

variable {a b c : Site}

/-- What is done to the hub, what is remarked on and what is reported leave all children alone. -/
theorem of_eq (i : Nat) (site : Site) (hub : Hub) (trace : List Mark) (exits : List String) :
    site.Spares i { site with hub := hub, trace := trace, exits := exits } :=
  ⟨rfl, rfl, rfl, fun _ _ => rfl⟩

protected theorem trans (hab : a.Spares i b) (hbc : b.Spares i c) : a.Spares i c where
  now := hbc.now.trans hab.now
  settings := hbc.settings.trans hab.settings
  halted := hbc.halted.trans hab.halted
  children j hj := (hbc.children j hj).trans (hab.children j hj)

theorem setChild (site : Site) (i : Nat) (change : Child → Child) :
    site.Spares i (site.setChild i change) := by
  refine ⟨rfl, rfl, rfl, fun j hj => ?_⟩
  rw [getElem?_setChild, if_neg (Ne.symm hj)]

theorem finish (site : Site) (i : Nat) (condition : Condition) :
    site.Spares i (site.finish i condition) :=
  (of_eq i site _ site.trace site.exits).trans (setChild _ i _)

theorem endGuarded (site : Site) (i : Nat) (key : AddonKey) (ending : Ending) :
    site.Spares i (site.endGuarded i key ending) := by
  have hreport : ∀ site : Site, site.Spares i (site.reportExit i key) := by
    intro site
    unfold reportExit
    split
    · split
      · exact of_eq i site site.hub site.trace site.exits
      · dsimp only
        split
        · exact (setChild site i _).trans (of_eq i _ _ _ _)
        · exact (setChild site i _).trans (of_eq i _ _ _ _)
    · exact of_eq i site site.hub site.trace site.exits
  unfold Site.endGuarded
  cases ending with
  | returns => exact (finish site i _).trans (hreport _)
  | crashes =>
    have hlogged : site.Spares i ((site.finish i .returned).log .error
        ("Config watcher of addon " ++ key.text ++ " panicked")) :=
      (finish site i _).trans (of_eq i _ _ _ _)
    exact hlogged.trans (hreport _)

theorem follower {f : Follower} {cancelled : Bool} {result : Follower ⊕ Ending}
    (h : f.step i cancelled site = some (next, result)) (j : Nat) : site.Spares j next := by
  obtain ⟨hub, trace, rfl⟩ := Follower.step_shared h
  exact of_eq j site hub trace site.exits

end Spares

/-- Whatever a child runs, its step leaves the other children alone. -/
theorem stepChild_spares (h : site.stepChild i = some next) : site.Spares i next := by
  obtain ⟨child, hc, h⟩ := Option.bind_eq_some_iff.mp h
  split at h
  next => cases h
  next =>
    split at h
    next f hb =>
      obtain ⟨⟨after, result⟩, hstep, rfl⟩ := Option.map_eq_some_iff.mp h
      have hafter := Spares.follower hstep i
      cases result with
      | inl f' => exact hafter.trans (.setChild after i _)
      | inr ending => exact hafter.trans (.endGuarded after i _ ending)
    next f hb =>
      obtain ⟨⟨after, result⟩, hstep, rfl⟩ := Option.map_eq_some_iff.mp h
      have hafter := Spares.follower hstep i
      cases result with
      | inl f' => exact hafter.trans (.setChild after i _)
      | inr ending => exact hafter.trans (.finish after i _)
    next timed hb =>
      obtain ⟨result, -, rfl⟩ := Option.map_eq_some_iff.mp h
      cases result with
      | inl t => exact .setChild site i _
      | inr ending => exact .finish site i _

end Site

namespace Supervision

/-- What can happen next while the clock is kept: a task takes its next step, anyone changes the
hub, a child goes on as a task that does as it likes, be it to run on when it is cancelled, or the
scope is cancelled. Time goes by only while no task can go on, and never past the next timer. -/
inductive Beats (s : Supervision) : Supervision → Prop
  | task (t : Task) (next : Supervision) (h : s.step t = some next) : Beats s next
  | hub (hub : Hub) : Beats s { s with site := { s.site with hub := hub } }
  | turns (i : Nat) (timed : Timed) :
      Beats s { s with site := s.site.setChild i fun child => { child with body := .timed timed } }
  | time (moment : Nat) (hrest : s.IsAtRest) (hm : s.site.now ≤ moment)
      (ht : ∀ timer ∈ s.timers, s.site.now < timer → moment ≤ timer) :
      Beats s { s with site := { s.site with now := moment } }
  | halt : Beats s { s with site := { s.site with halted := true } }

/-- The states that a run comes to under the clock. -/
inductive Paced : Supervision → Prop
  | start (s : Supervision) (hf : s.IsFresh) : Paced s
  | next (s s' : Supervision) (h : Paced s) (hb : s.Beats s') : Paced s'

/-- That has come to hold in the run at `begun`, and has held ever since. -/
inductive HeldSince (p : Supervision → Prop) (begun : Supervision) : Supervision → Prop
  | begins (before : Supervision) (h : before.Paced) (hn : ¬p before) (hb : before.Beats begun)
      (hp : p begun) : HeldSince p begun begun
  | goesOn (mid s : Supervision) (h : HeldSince p begun mid) (hb : mid.Beats s) (hp : p s) :
      HeldSince p begun s

variable {p : Supervision → Prop} {s next begun : Supervision} {i : Nat}

namespace HeldSince

theorem paced (h : HeldSince p begun s) : s.Paced := by
  induction h with
  | begins before hr _ hb _ => exact .next before begun hr hb
  | goesOn mid s _ hb _ ih => exact .next mid s ih hb

theorem holds (h : HeldSince p begun s) : p s := by
  cases h with
  | begins _ _ _ _ hp => exact hp
  | goesOn _ _ _ _ hp => exact hp

end HeldSince

/-- What does not hold at the start has come to hold at some point. -/
theorem Paced.heldSince (h : s.Paced) (hfresh : ∀ s : Supervision, s.IsFresh → ¬p s) (hp : p s) :
    ∃ begun, HeldSince p begun s := by
  induction h with
  | start s hf => exact absurd hp (hfresh s hf)
  | next s s' h hb ih =>
    by_cases hbefore : p s
    · obtain ⟨begun, hheld⟩ := ih hbefore
      exact ⟨begun, .goesOn s s' hheld hb hp⟩
    · exact ⟨s', .begins s h hbefore hb hp⟩

/-- Time does not go by, or all tasks are at rest and no timer is passed. -/
def Clocks (s next : Supervision) : Prop :=
  next.site.now = s.site.now ∨ s.IsAtRest ∧ s.site.now ≤ next.site.now ∧
    ∀ timer ∈ s.timers, s.site.now < timer → next.site.now ≤ timer

theorem LeadMoves.clock (h : s.LeadMoves next) : next.site.now = s.site.now ∧
    next.site.settings = s.site.settings ∧ next.site.halted = s.site.halted := by
  obtain ⟨hub, trace, exits, he, -⟩ := h.shared
  rw [he]
  exact ⟨rfl, rfl, rfl⟩

namespace Beats

theorem settings (h : s.Beats next) : next.site.settings = s.site.settings := by
  cases h with
  | task t _ hstep =>
    cases t with
    | child i =>
      obtain ⟨site, hchild, rfl⟩ := stepChild_cases hstep
      exact (Site.stepChild_spares hchild).settings
    | desk i =>
      obtain ⟨desk, desk', site, -, hm, rfl⟩ := stepDesk_cases hstep
      exact hm.grows.settings
    | lead => exact (stepLead_moves hstep).clock.2.1
  | _ => rfl

/-- Only its cancellation cancels the scope. -/
theorem halted (h : s.Beats next) (hn : s.site.halted = false) (hh : next.site.halted = true) :
    next = { s with site := { s.site with halted := true } } := by
  have hsame : next.site.halted = s.site.halted →
      next = { s with site := { s.site with halted := true } } := by
    intro he
    rw [he, hn] at hh
    cases hh
  cases h with
  | task t _ hstep =>
    refine hsame ?_
    cases t with
    | child i =>
      obtain ⟨site, hchild, rfl⟩ := stepChild_cases hstep
      exact (Site.stepChild_spares hchild).halted
    | desk i =>
      obtain ⟨desk, desk', site, -, hm, rfl⟩ := stepDesk_cases hstep
      exact hm.halted
    | lead => exact (stepLead_moves hstep).clock.2.2
  | halt => rfl
  | _ => exact hsame rfl

/-- Where a desk comes from: it has been set up just now, or has just taken a step, or it is where
it was. -/
theorem desk_cases (h : s.Beats next) {desk' : Desk} (hd : next.desks[i]? = some desk') :
    desk'.phase = .idle ∨
    (∃ desk, s.desks[i]? = some desk ∧ desk.Moves s.isSealed s.site next.site desk') ∨
    ∃ desk, s.desks[i]? = some desk ∧ desk'.phase = desk.phase ∧ Clocks s next := by
  cases h with
  | task t _ hstep =>
    cases t with
    | child j =>
      obtain ⟨site, hchild, rfl⟩ := stepChild_cases hstep
      exact .inr (.inr ⟨desk', hd, rfl, .inl (Site.stepChild_spares hchild).now⟩)
    | desk j =>
      obtain ⟨desk, after, site, hj, hm, rfl⟩ := stepDesk_cases hstep
      rcases getElem?_set_desk hj hd with ⟨rfl, rfl⟩ | ⟨-, hold⟩
      · exact .inr (.inl ⟨desk, hj, hm⟩)
      · exact .inr (.inr ⟨desk', hold, rfl, .inl hm.now⟩)
    | lead =>
      have hm := stepLead_moves hstep
      rcases hm.desks with ⟨call, deadline, -, rfl⟩ | ⟨more, hs⟩
      · obtain ⟨hub, trace, lead, he, -⟩ := Orderly.begin_eq s
        rw [he] at hd
        obtain rfl := List.eq_of_mem_replicate (List.mem_of_getElem? hd)
        exact .inl rfl
      · rw [hs.desks] at hd
        obtain ⟨desk, ho, rfl⟩ := Option.map_eq_some_iff.mp hd
        exact .inr (.inr ⟨desk, ho, rfl, .inl hm.clock.1⟩)
  | time moment hrest hm ht => exact .inr (.inr ⟨desk', hd, rfl, .inr ⟨hrest, hm, ht⟩⟩)
  | _ => exact .inr (.inr ⟨desk', hd, rfl, .inl rfl⟩)

end Beats

theorem Paced.isManned (h : s.Paced) : s.IsManned := by
  induction h with
  | start s hf => exact .of_isFresh hf
  | next s s' _ hb ih =>
    cases hb with
    | task t _ hstep =>
      cases t with
      | child i =>
        obtain ⟨site, hchild, rfl⟩ := stepChild_cases hstep
        have hhalted := (Site.stepChild_spares hchild).halted
        exact ⟨ih.desks, fun hn hh => ih.opens hn (hhalted ▸ hh)⟩
      | desk i =>
        obtain ⟨desk, desk', site, hd, hm, rfl⟩ := stepDesk_cases hstep
        exact ih.set_desk hd hm
      | lead => exact (stepLead_moves hstep).isManned ih
    | hub hub => exact ⟨ih.desks, ih.opens⟩
    | turns i timed => exact ⟨ih.desks, ih.opens⟩
    | time moment => exact ⟨ih.desks, ih.opens⟩
    | halt => exact ⟨ih.desks, fun _ hh => by simp at hh⟩

end Supervision

end AddonWatch

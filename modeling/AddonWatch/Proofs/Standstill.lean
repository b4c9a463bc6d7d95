import AddonWatch.Proofs.Marks
import AddonWatch.Proofs.Shutdown

namespace AddonWatch

/-- No addon has been written, and no subscription and no write has been called for. -/
structure Hub.GoesUncalled (old new : Hub) : Prop where
  addons : new.addons = old.addons
  opens : new.opens = old.opens
  writes : new.writes = old.writes

theorem Hub.Sheds.goesUncalled {old new : Hub} (h : old.Sheds new) : old.GoesUncalled new :=
  ⟨h.addons, h.opens, h.writes⟩

/-- Once the scope is cancelled a desk winds its watchers down and makes remarks, and registers
none. -/
theorem Desk.Moves.of_halted {desk desk' : Desk} {isSealed : Bool} {site site' : Site}
    (h : desk.Moves isSealed site site' desk') (hh : site.halted = true) :
    site.WindsDown site' ∧ site.Leaves (fun _ => False) site' ∧
      ∀ e ∈ desk'.roster.entries, e ∈ desk.roster.entries := by
  have hgoing : site.halted ≠ false := by simp [hh]
  cases h with
  | closes => exact ⟨Closing.start_windsDown _ _ _, Closing.start_leaves _ _ _, by simp⟩
  | rests => exact ⟨.refl site, .nothing rfl, fun e he => he⟩
  | drops => exact ⟨.refl site, .nothing rfl, fun e he => he⟩
  | settles _ _ _ _ hc =>
    exact ⟨Closing.step_windsDown hc, Closing.step_leaves hc, fun e he => he⟩
  | finishes _ _ _ hc =>
    exact ⟨Closing.step_windsDown hc, Closing.step_leaves hc, fun e he => he⟩
  | wakes _ _ _ hn => exact absurd hn hgoing
  | takes _ _ _ _ hn => exact absurd hn hgoing
  | looks _ _ _ hn => exact absurd hn hgoing
  | turns _ _ hn => exact absurd hn hgoing
  | begins _ _ _ hn => exact absurd hn hgoing
  | goesOn _ _ _ _ _ _ _ hn => exact absurd hn hgoing
  | concludes _ _ _ _ _ _ _ _ _ hn => exact absurd hn hgoing

namespace Supervision

/-- Nothing has been begun: there are the same children, each of them at what it was at, so that
none has begun a write; all marks that were left are remarks, so that no object was asked for, no
write was completed and nothing was told; and what a desk has registered it had registered
before. -/
structure Stilled (old new : Supervision) : Prop where
  bodies : new.site.bodies = old.site.bodies
  marks : old.site.Leaves (fun _ => False) new.site
  rosters : ∀ (i : Nat) (desk : Desk), new.desks[i]? = some desk → ∀ e ∈ desk.roster.entries,
    ∃ before : Desk, old.desks[i]? = some before ∧ e ∈ before.roster.entries

namespace Stilled

variable {a b c : Supervision}

/-- What leaves the desks, the children and the marks alone. -/
theorem of_eq (hdesks : b.desks = a.desks) (hchildren : b.site.children = a.site.children)
    (htrace : b.site.trace = a.site.trace) : a.Stilled b where
  bodies := by simp [Site.bodies, hchildren]
  marks := .nothing htrace
  rosters i desk hd e he := ⟨desk, hdesks ▸ hd, he⟩

protected theorem refl (s : Supervision) : s.Stilled s :=
  .of_eq rfl rfl rfl

protected theorem trans (hab : a.Stilled b) (hbc : b.Stilled c) : a.Stilled c where
  bodies := hbc.bodies.trans hab.bodies
  marks := hab.marks.trans hbc.marks
  rosters i desk hd e he := by
    obtain ⟨mid, hmid, hm⟩ := hbc.rosters i desk hd e he
    exact hab.rosters i mid hmid e hm

end Stilled

variable {w : Surroundings} {s next later : Supervision}

/-- The leading task hands out work and makes remarks; what comes of the work is up to the desks. -/
theorem LeadMoves.stilled (hm : s.LeadMoves next) :
    s.Stilled next ∧ s.site.hub.GoesUncalled next.site.hub := by
  obtain ⟨hub, trace, exits, he, -⟩ := hm.shared
  refine ⟨⟨by rw [he]; rfl, hm.leaves, fun i desk hd e hin => ?_⟩, hm.addons, hm.opens, hm.script⟩
  rcases hm.desks with ⟨call, deadline, -, rfl⟩ | ⟨more, hs⟩
  · obtain ⟨_, _, _, hbegun, -⟩ := Orderly.begin_eq s
    rw [hbegun] at hd
    obtain rfl := List.eq_of_mem_replicate (List.mem_of_getElem? hd)
    simp at hin
  · rw [hs.desks] at hd
    obtain ⟨before, hb, rfl⟩ := Option.map_eq_some_iff.mp hd
    exact ⟨before, hb, hin⟩

/-- With the scope cancelled no task begins anything, whichever goes on. -/
theorem Reached.step_stilled (h : s.Reached w) (hh : s.site.halted = true) {t : Task}
    (hstep : s.step t = some next) :
    s.Stilled next ∧ s.site.hub.GoesUncalled next.site.hub := by
  cases t with
  | child i =>
    obtain ⟨site, hchild, rfl⟩ := stepChild_cases hstep
    obtain ⟨child, hc, hrun, -⟩ := Site.stepChild_moves hchild
    obtain ⟨f, hb⟩ := h.orderly.staffed.guarded hc
    have hn : s.site.isCancelled child = true := by simp [Site.isCancelled, hh]
    rw [Site.stepChild_cancelled hc hb hrun hn] at hchild
    obtain rfl := Option.some.inj hchild
    refine ⟨⟨?_, .nothing rfl, fun i desk hd e he => ⟨desk, hd, he⟩⟩, rfl, rfl, rfl⟩
    exact s.site.bodies_setChild i fun _ => rfl
  | desk i =>
    obtain ⟨desk, desk', site, hd, hm, rfl⟩ := stepDesk_cases hstep
    obtain ⟨hwinds, hleaves, hroster⟩ := hm.of_halted hh
    refine ⟨⟨hwinds.bodies, hleaves, fun j other ho e he => ?_⟩, hwinds.hub.goesUncalled⟩
    rcases getElem?_set_desk hd ho with ⟨rfl, rfl⟩ | ⟨-, hold⟩
    · exact ⟨desk, hd, hroster e he⟩
    · exact ⟨other, hold, he⟩
  | lead => exact (stepLead_moves hstep).stilled

theorem Reached.later_halted (h : s.Reached w) (hh : s.site.halted = true)
    (hl : s.Later w later) : later.site.halted = true := by
  induction hl with
  | refl => exact hh
  | next mid s' hl hm ih => exact ((h.later hl).onward hm).halted ih

/-- From the moment on at which the scope is cancelled nothing is begun any more, wherever the run
stands then and whatever goes on around it: in every later state there are the same children, each
at what it was at, nothing but remarks has been marked, and nothing has been registered; and no step
of a task calls for a subscription or a write, or writes an addon. -/
theorem nothing_starts_after_halt (h : s.Reached w) (hh : s.site.halted = true)
    (hl : s.Later w later) :
    s.Stilled later ∧ ∀ (t : Task) (next : Supervision), later.step t = some next →
      later.site.hub.GoesUncalled next.site.hub := by
  refine ⟨?_, fun t next hstep => ?_⟩
  · induction hl with
    | refl => exact .refl s
    | next mid s' hl hm ih =>
      refine ih.trans ?_
      cases hm with
      | task t _ hstep =>
        exact ((h.later hl).step_stilled (h.later_halted hh hl) hstep).1
      | _ => exact .of_eq rfl rfl rfl
  · exact ((h.later hl).step_stilled (h.later_halted hh hl) hstep).2

/-- The subscription for the first addon has been granted when the scope is cancelled. One more step
of the desk would have started its watcher; now none is there when the supervision is over. -/
theorem nothing_starts_after_halt_first : ∃ s started later : Supervision, s.Reached .calm ∧
    s.step (.desk 0) = some started ∧ started.site.bodies.length = 1 ∧
    s.halted.Later .calm later ∧ later.lead = .ended .done ∧ later.site.bodies = [] ∧
    ∀ desk ∈ later.desks, desk.roster.entries = [] := by
  obtain ⟨s, hs, hp⟩ := exists_of_play (opening 3) sparing_reached
    (p := fun s => s.site.bodies.isEmpty &&
      (s.desks.all fun desk => desk.roster.entries.isEmpty) &&
      ((s.step (.desk 0)).any fun started => started.site.bodies.length = 1) &&
      (s.halted.play [.lead, .desk 0, .desk 0, .desk 0, .lead]).any hasReturned)
    (by decide +kernel)
  simp only [Bool.and_eq_true, List.isEmpty_iff] at hp
  obtain ⟨⟨⟨hnone, hempty⟩, hstart⟩, hp⟩ := hp
  obtain ⟨started, hstarted, hone⟩ := (Option.any_eq_true ..).mp hstart
  obtain ⟨later, hplay, hreturned⟩ := (Option.any_eq_true ..).mp hp
  have hlater : s.halted.Later .calm later := Later.refl.play hplay
  obtain ⟨hstilled, -⟩ := nothing_starts_after_halt (hs.next _ _ .halt) rfl hlater
  refine ⟨s, started, later, hs, hstarted, by simpa using hone, hlater,
    lead_of_hasReturned hreturned, hstilled.bodies.trans hnone, fun desk hd => ?_⟩
  apply List.eq_nil_iff_forall_not_mem.mpr
  intro e he
  obtain ⟨i, hi⟩ := List.mem_iff_getElem?.mp hd
  obtain ⟨before, hb, hbefore⟩ := hstilled.rosters i desk hi e he
  have hvoid := List.all_eq_true.mp hempty before (List.mem_of_getElem? hb)
  rw [List.isEmpty_iff.mp hvoid] at hbefore
  cases hbefore

end Supervision

end AddonWatch

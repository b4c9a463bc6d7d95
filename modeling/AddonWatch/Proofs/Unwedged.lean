import AddonWatch.Proofs.Convergence
import AddonWatch.Proofs.Deadlines

namespace AddonWatch

namespace Supervision

/-- The desk is in the middle of a reconciliation. -/
def IsSyncing (i : Nat) (s : Supervision) : Prop :=
  ∃ desk text work rest, s.desks[i]? = some desk ∧ desk.phase = .reconciling text work rest

/-- The child runs and waits for a status write. -/
def IsWriting (i : Nat) (s : Supervision) : Prop :=
  s.site.isFinished i = false ∧ ∃ f write, s.site.bodies[i]? = some (.guarded f) ∧
    f.phase = .writing write

variable {s next begun : Supervision} {i : Nat}

theorem IsAtRest.desk_waits (h : s.IsAtRest) {desk : Desk} (hd : s.desks[i]? = some desk) :
    desk.step s.isSealed s.site = none := by
  by_contra hne
  obtain ⟨⟨site, desk'⟩, hstep⟩ := Option.ne_none_iff_exists'.mp hne
  have hgo : s.step (.desk i) = some { s with site := site, desks := s.desks.set i desk' } := by
    simp [step, stepDesk, hd, hstep]
  rw [h (.desk i)] at hgo
  cases hgo

theorem mem_timers_of_desk {desk : Desk} {timer : Nat} (hd : s.desks[i]? = some desk)
    (ht : timer ∈ desk.timers) : timer ∈ s.timers := by
  refine List.mem_append_left _ (List.mem_append_right _ ?_)
  exact List.mem_flatMap.mpr ⟨desk, List.mem_of_getElem? hd, ht⟩

theorem mem_timers_of_child {child : Child} {f : Follower} {timer : Nat}
    (hc : s.site.children[i]? = some child) (hb : child.body = .guarded f)
    (hrun : child.isFinished = false) (ht : timer ∈ f.timers) : timer ∈ s.timers := by
  refine List.mem_append_left _ (List.mem_append_left _ ?_)
  refine List.mem_flatMap.mpr ⟨child, List.mem_of_getElem? hc, ?_⟩
  simpa [hrun, hb] using ht

/-- A reconciliation is in time as long as it has not ended. -/
theorem HeldSince.inTime (h : HeldSince (IsSyncing i) begun s) :
    ∀ desk text work rest, s.desks[i]? = some desk → desk.phase = .reconciling text work rest →
      work.InTime s.site.settings begun.site.now s.site.now := by
  induction h with
  | begins before hr hn hb hp =>
    intro desk text work rest hd hphase
    rcases hb.desk_cases hd with hidle | ⟨old, ho, hm⟩ | ⟨old, ho, hsame, -⟩
    · rw [hphase] at hidle
      cases hidle
    · rcases hm.reconciling hphase with ⟨-, rfl⟩ | ⟨work₀, roster, hold, -⟩
      · exact rfl
      · exact absurd ⟨old, text, work₀, rest, ho, hold⟩ hn
    · exact absurd ⟨old, text, work, rest, ho, hsame ▸ hphase⟩ hn
  | goesOn mid s hheld hb hp ih =>
    intro desk text work rest hd hphase
    rw [hb.settings]
    rcases hb.desk_cases hd with hidle | ⟨old, ho, hm⟩ | ⟨old, ho, hsame, hclock⟩
    · rw [hphase] at hidle
      cases hidle
    · rcases hm.reconciling hphase with ⟨hworking, -⟩ | ⟨work₀, roster, hold, hmoves⟩
      · obtain ⟨before, _, _, _, hbefore, hwork⟩ := hheld.holds
        obtain rfl : old = before := Option.some.inj (ho.symm.trans hbefore)
        rw [hwork] at hworking
        cases hworking
      · exact (ih old text work₀ rest ho hold).moves hmoves
    · have hwork : old.phase = .reconciling text work rest := hsame ▸ hphase
      have hin := ih old text work rest ho hwork
      rcases hclock with hnow | ⟨hrest, -, ht⟩
      · rw [hnow]
        exact hin
      · have hwaits := hrest.desk_waits ho
        have htimers : old.timers = work.timers := by simp [Desk.timers, hwork]
        simp only [Desk.step, hwork] at hwaits
        split at hwaits
        next => cases hwaits
        next =>
          refine hin.waits (Option.map_eq_none_iff.mp hwaits) fun timer hm => ?_
          exact ht timer (mem_timers_of_desk ho (htimers ▸ hm))

theorem IsAtRest.child_waits (h : s.IsAtRest) {child : Child} {f : Follower}
    (hc : s.site.children[i]? = some child) (hb : child.body = .guarded f)
    (hrun : child.isFinished = false) :
    f.step i (s.site.isCancelled child) s.site = none := by
  have hwaits := h (.child i)
  simpa [step, stepChild, Site.stepChild, hc, hb, hrun] using hwaits

/-- Where a write that is under way comes from: the child has just taken a step, or it is as it
was. -/
theorem Beats.writing_cases (h : s.Beats next) {f : Follower} {write : Write}
    (hb : next.site.bodies[i]? = some (.guarded f)) (hrun : next.site.isFinished i = false)
    (hphase : f.phase = .writing write) :
    (∃ child old after, s.site.children[i]? = some child ∧ child.body = .guarded old ∧
      child.isFinished = false ∧ old.Moves i s.site after (.inl f) ∧
      next.site.now = s.site.now) ∨
    ∃ child, s.site.children[i]? = some child ∧ child.body = .guarded f ∧
      child.isFinished = false ∧ s.Clocks next := by
  obtain ⟨child, hc, hbody⟩ := Site.getElem?_bodies.mp hb
  have hup : child.isFinished = false := (Site.isFinished_of_getElem? hc).symm.trans hrun
  cases h with
  | task t _ hstep =>
    cases t with
    | child j =>
      obtain ⟨site, hchild, rfl⟩ := stepChild_cases hstep
      have hspares := Site.stepChild_spares hchild
      by_cases hj : i = j
      · subst hj
        obtain ⟨old, f₀, after, ho, hb₀, hold, hm⟩ := Site.moves_of_stepChild hchild hb hrun
        exact .inl ⟨old, f₀, after, ho, hb₀, hold, hm, hspares.now⟩
      · exact .inr ⟨child, (hspares.children i hj).symm.trans hc, hbody, hup, .inl hspares.now⟩
    | desk j =>
      obtain ⟨desk, desk', site, -, hm, rfl⟩ := stepDesk_cases hstep
      have hkept : s.site.bodies[i]? = some (.guarded f) := by
        rcases hm.bodies with he | ⟨_, _, _, _, -, he⟩
        · exact he ▸ hb
        · rcases getElem?_append_body he hb with hold | ⟨-, rfl⟩
          · exact hold
          · cases hphase
      obtain ⟨old, ho, hb₀⟩ := Site.getElem?_bodies.mp hkept
      have hold := hm.grows.running i (List.getElem?_eq_some_iff.mp ho).1 hrun
      exact .inr ⟨old, ho, hb₀, (Site.isFinished_of_getElem? ho).symm.trans hold, .inl hm.now⟩
    | lead =>
      obtain ⟨hub, trace, exits, he, -⟩ := (stepLead_moves hstep).shared
      rw [he] at hc
      exact .inr ⟨child, hc, hbody, hup, .inl (by rw [he])⟩
  | turns j timed =>
    dsimp only at hc
    rw [Site.getElem?_setChild] at hc
    split at hc
    next =>
      obtain ⟨old, -, rfl⟩ := Option.map_eq_some_iff.mp hc
      cases hbody
    next => exact .inr ⟨child, hc, hbody, hup, .inl rfl⟩
  | time moment hrest hm ht => exact .inr ⟨child, hc, hbody, hup, .inr ⟨hrest, hm, ht⟩⟩
  | _ => exact .inr ⟨child, hc, hbody, hup, .inl rfl⟩

/-- A write that has not ended is waited for until its deadline. -/
theorem HeldSince.write (h : HeldSince (IsWriting i) begun s) :
    ∀ f write, s.site.bodies[i]? = some (.guarded f) → f.phase = .writing write →
      s.site.now ≤ write.deadline ∧
        write.deadline = begun.site.now + s.site.settings.callTimeout.millis := by
  induction h with
  | begins before hr hn hb hp =>
    intro f write hbody hphase
    have hbefore : ∀ {child : Child} {f : Follower} {write : Write},
        before.site.children[i]? = some child → child.body = .guarded f →
          child.isFinished = false → f.phase ≠ .writing write := by
      intro child f write hc hbody hup hphase
      exact hn ⟨(Site.isFinished_of_getElem? hc).trans hup, f, write,
        Site.getElem?_bodies.mpr ⟨child, hc, hbody⟩, hphase⟩
    rcases hb.writing_cases hbody hp.1 hphase with ⟨child, old, after, hc, hbody₀, hup, hm, hnow⟩ |
      ⟨child, hc, hbody₀, hup, -⟩
    · rcases hm.deadline hphase with ⟨write₀, hold, -⟩ | ⟨-, hdeadline⟩
      · exact absurd hold (hbefore hc hbody₀ hup)
      · rw [hb.settings, hnow]
        omega
    · exact absurd hphase (hbefore hc hbody₀ hup)
  | goesOn mid s hheld hb hp ih =>
    intro f write hbody hphase
    rw [hb.settings]
    rcases hb.writing_cases hbody hp.1 hphase with ⟨child, old, after, hc, hbody₀, hup, hm, hnow⟩ |
      ⟨child, hc, hbody₀, hup, hclock⟩
    · have hmid := Site.getElem?_bodies.mpr ⟨child, hc, hbody₀⟩
      obtain ⟨-, f₀, write₀, hf₀, hwaits⟩ := hheld.holds
      obtain rfl : old = f₀ := Body.guarded.inj (Option.some.inj (hmid.symm.trans hf₀))
      rcases hm.deadline hphase with ⟨write₁, hold, hsame, -⟩ | ⟨hnone, -⟩
      · rw [hnow, hsame]
        exact ih old write₁ hmid hold
      · exact absurd hwaits (hnone write₀)
    · have hmid := Site.getElem?_bodies.mpr ⟨child, hc, hbody₀⟩
      obtain ⟨hle, hdeadline⟩ := ih f write hmid hphase
      refine ⟨?_, hdeadline⟩
      rcases hclock with hnow | ⟨hrest, -, ht⟩
      · exact hnow ▸ hle
      · have hwaits := hrest.child_waits hc hbody₀ hup
        have hmem : write.deadline ∈ f.timers := by simp [Follower.timers, hphase, Write.timers]
        refine ht _ (mem_timers_of_child hc hbody₀ hup hmem) ?_
        unfold Follower.step at hwaits
        split at hwaits
        next => cases hwaits
        next =>
          rw [hphase] at hwaits
          exact Write.lt_deadline (Option.map_eq_none_iff.mp hwaits)

/-- Told to stop then, the supervision has not gone beyond the grace period, and neither will any of
its desks. -/
structure ClosesBy (s : Supervision) (began : Nat) : Prop where
  now : s.site.now ≤ began + s.site.settings.cancelGrace.millis
  desks : ∀ desk ∈ s.desks,
    desk.ClosesBy began (began + s.site.settings.cancelGrace.millis) s.site.now
  lead : isOpenLead s.lead = true ∨ s.lead = .joining

namespace ClosesBy

variable {began : Nat}

/-- The leading task waits for the desks, and ends when all are over. -/
theorem lead_moves (h : s.ClosesBy began) (hh : s.site.halted = true) (hm : s.LeadMoves next) :
    (∃ verdict, next.lead = .ended verdict) ∨ next.ClosesBy began := by
  have hlead := h.lead
  cases hm with
  | stops => exact .inr ⟨h.now, h.desks, .inr rfl⟩
  | joins => exact .inl ⟨.done, rfl⟩
  | asks hfresh => simp [hfresh, isOpenLead] at hlead
  | waits _ _ _ hopening => simp [hopening, isOpenLead] at hlead
  | begins _ _ hopening => simp [hopening, isOpenLead] at hlead
  | givesUp _ _ _ hopening => simp [hopening, isOpenLead] at hlead
  | breaks _ _ _ hopening => simp [hopening, isOpenLead] at hlead
  | reports _ _ _ _ _ _ hn => simp [hh] at hn
  | sees _ _ _ _ _ hn => simp [hh] at hn
  | overlooks _ _ _ _ _ hn => simp [hh] at hn
  | resyncs _ _ _ _ _ _ hn => simp [hh] at hn
  | outlives _ _ _ _ _ hn => simp [hh] at hn
  | ticks _ _ _ _ hn => simp [hh] at hn

/-- At rest the leading task waits for a desk, and that for a child whose time is not over yet. -/
theorem awaits (h : s.ClosesBy began) (hh : s.site.halted = true) (hrest : s.IsAtRest) :
    ∃ timer ∈ s.timers, s.site.now < timer ∧
      timer ≤ began + s.site.settings.cancelGrace.millis := by
  have hjoining : s.lead = .joining := by
    refine h.lead.resolve_left fun hopen => ?_
    have hseal : s.isSealed = false := by simp [isSealed, hopen]
    obtain ⟨feed, streaming, tick, hl⟩ := leading_of_isSealed hseal
    have hstop := hrest .lead
    simp [step, stepLead, hl, stepLeading, hh] at hstop
  obtain ⟨desk, hd, hopen⟩ : ∃ desk ∈ s.desks, desk.isOver = false := by
    have hwaits := hrest .lead
    simpa [step, stepLead, hjoining, stepJoining] using hwaits
  obtain ⟨j, hj⟩ := List.mem_iff_getElem?.mp hd
  obtain ⟨closing, hphase, hstep⟩ :=
    (Desk.closing_of_rest (hrest.desk_waits hj) hh).resolve_left (by simp [hopen])
  obtain ⟨e, he, hlt⟩ := Closing.lt_deadline hstep
  have htimer : e.2.deadline ∈ desk.timers := by
    simp only [Desk.timers, hphase]
    exact List.mem_flatMap.mpr ⟨e, he, List.mem_singleton_self _⟩
  refine ⟨_, mem_timers_of_desk hj htimer, hlt, ?_⟩
  rcases h.desks desk hd with hend | ⟨other, ho, hlimit⟩ | ⟨-, hnone⟩
  · simp [hopen] at hend
  · obtain rfl := DeskPhase.closing.inj (hphase.symm.trans ho)
    exact hlimit e he
  · exact absurd hphase (hnone closing)

theorem time {moment : Nat} (h : s.ClosesBy began) (hh : s.site.halted = true)
    (hrest : s.IsAtRest) (ht : ∀ timer ∈ s.timers, s.site.now < timer → moment ≤ timer) :
    ({ s with site := { s.site with now := moment } } : Supervision).ClosesBy began := by
  obtain ⟨timer, htimer, hlt, hle⟩ := h.awaits hh hrest
  refine ⟨Nat.le_trans (ht timer htimer hlt) hle, fun desk hd => ?_, h.lead⟩
  obtain ⟨j, hj⟩ := List.mem_iff_getElem?.mp hd
  rcases Desk.closing_of_rest (hrest.desk_waits hj) hh with hend | ⟨closing, hphase, -⟩
  · exact .inl hend
  · rcases h.desks desk hd with hend | hwaits | ⟨-, hnone⟩
    · exact .inl hend
    · exact .inr (.inl hwaits)
    · exact absurd hphase (hnone closing)

theorem beats (h : s.ClosesBy began) (hh : s.site.halted = true) (hb : s.Beats next) :
    (∃ verdict, next.lead = .ended verdict) ∨ next.ClosesBy began := by
  cases hb with
  | task t _ hstep =>
    cases t with
    | child j =>
      obtain ⟨site, hchild, rfl⟩ := stepChild_cases hstep
      have hspares := Site.stepChild_spares hchild
      refine .inr ⟨?_, fun desk hd => ?_, h.lead⟩
      · simpa only [hspares.now, hspares.settings] using h.now
      · simpa only [hspares.now, hspares.settings] using h.desks desk hd
    | desk j =>
      obtain ⟨desk, desk', site, hd, hm, rfl⟩ := stepDesk_cases hstep
      have hsettings : site.settings = s.site.settings := hm.grows.settings
      refine .inr ⟨?_, fun other ho => ?_, h.lead⟩
      · simpa only [hm.now, hsettings] using h.now
      · simp only [hsettings]
        rcases List.mem_or_eq_of_mem_set ho with hold | rfl
        · exact hm.now ▸ h.desks other hold
        · exact hm.closesBy hh (h.desks desk (List.mem_of_getElem? hd))
    | lead => exact h.lead_moves hh (stepLead_moves hstep)
  | time moment hrest hm ht => exact .inr (h.time hh hrest ht)
  | _ => exact .inr ⟨h.now, h.desks, h.lead⟩

end ClosesBy

/-- A supervision that has ended does nothing more. -/
theorem Beats.ended {verdict : Verdict} (h : s.Beats next) (hended : s.lead = .ended verdict) :
    next.lead = .ended verdict := by
  cases h with
  | task t _ hstep =>
    cases t with
    | child j =>
      obtain ⟨site, -, rfl⟩ := stepChild_cases hstep
      exact hended
    | desk j =>
      obtain ⟨desk, desk', site, -, -, rfl⟩ := stepDesk_cases hstep
      exact hended
    | lead => simp [step, stepLead, hended] at hstep
  | _ => exact hended

/-- Cancelled while work is handed out, the supervision winds up or has ended. -/
theorem HeldSince.closesBy (h : HeldSince (fun s => s.site.halted = true) begun s)
    (hopen : isOpenLead begun.lead = true) :
    (∃ verdict, s.lead = .ended verdict) ∨ s.ClosesBy begun.site.now := by
  induction h with
  | begins before hr hn hb hp =>
    have hnot : before.site.halted = false := by simpa using hn
    have he := hb.halted hnot hp
    have hlead : before.isSealed = false := by
      rw [he] at hopen
      simpa [isSealed] using hopen
    refine .inr ⟨Nat.le_add_right _ _, fun desk hd => ?_, .inl hopen⟩
    have hbefore : desk ∈ before.desks := by
      rw [he] at hd
      exact hd
    exact .inr (.inr ⟨rfl, (hr.isManned.opens hlead hnot desk hbefore).1⟩)
  | goesOn mid s hheld hb hp ih =>
    rcases ih with ⟨verdict, hended⟩ | hw
    · exact .inl ⟨verdict, hb.ended hended⟩
    · exact hw.beats hheld.holds hb

/-- Whatever the hub does with the calls made to it, whatever the children do, and however many
desks and children there are: a reconciliation under way began no longer ago than the grace period
and the time for one call together; a status write under way began no longer ago than the time for
one call; and if work was handed out when the scope was cancelled, then as long as the supervision
has not returned, that was no longer ago than the grace period. -/
theorem no_call_wedges (h : s.Paced) :
    (∀ i, s.IsSyncing i → (∃ begun, HeldSince (IsSyncing i) begun s) ∧
      ∀ begun, HeldSince (IsSyncing i) begun s → s.site.now ≤ begun.site.now +
        s.site.settings.cancelGrace.millis + s.site.settings.callTimeout.millis) ∧
    (∀ i, s.IsWriting i → (∃ begun, HeldSince (IsWriting i) begun s) ∧
      ∀ begun, HeldSince (IsWriting i) begun s →
        s.site.now ≤ begun.site.now + s.site.settings.callTimeout.millis) ∧
    ∀ begun, HeldSince (fun s => s.site.halted = true) begun s → isOpenLead begun.lead = true →
      (∀ verdict, s.lead ≠ .ended verdict) →
        s.site.now ≤ begun.site.now + s.site.settings.cancelGrace.millis := by
  refine ⟨fun i hp => ⟨h.heldSince ?_ hp, fun begun hs => ?_⟩,
    fun i hp => ⟨h.heldSince ?_ hp, fun begun hs => ?_⟩, fun begun hs hopen hrun => ?_⟩
  · rintro s hf ⟨desk, text, work, rest, hd, -⟩
    simp [hf.desks] at hd
  · obtain ⟨desk, text, work, rest, hd, hphase⟩ := hp
    exact (hs.inTime desk text work rest hd hphase).le
  · rintro s hf ⟨-, f, write, hb, -⟩
    simp [Site.bodies, hf.children] at hb
  · obtain ⟨-, f, write, hb, hphase⟩ := hp
    obtain ⟨hle, hdeadline⟩ := hs.write f write hb hphase
    omega
  · rcases hs.closesBy hopen with ⟨verdict, hended⟩ | hw
    · exact absurd hended (hrun verdict)
    · exact hw.now

/-- The task goes on; or, with no task named and all of them at rest, time goes by until the next
timer. -/
def pace (s : Supervision) : Option Task → Option Supervision
  | some t => s.step t
  | none =>
    if s.tasks.all fun t => (s.step t).isNone then
      (Clockwork.nextMoment s.site.now s.timers).map fun moment => clockwork.setNow moment s
    else none

/-- The clock is kept in that order as long as what comes of it is to be kept. -/
def paceWhile (keep : Supervision → Bool) (s : Supervision) :
    List (Option Task) → Option Supervision
  | [] => some s
  | turn :: rest =>
    (s.pace turn).bind fun next => if keep next then next.paceWhile keep rest else none

theorem Beats.of_pace {turn : Option Task} (h : s.pace turn = some next) : s.Beats next := by
  cases turn with
  | some t => exact .task t next h
  | none =>
    simp only [pace] at h
    split at h
    next hrest =>
      obtain ⟨moment, hnext, rfl⟩ := Option.map_eq_some_iff.mp h
      obtain ⟨hmem, hmin⟩ := List.min?_eq_some_iff.mp hnext
      have hlt : s.site.now < moment := by simpa using (List.mem_filter.mp hmem).2
      refine .time moment (isAtRest_of_tasks hrest) (Nat.le_of_lt hlt) fun timer ht hn => ?_
      exact hmin timer (List.mem_filter.mpr ⟨ht, by simpa using hn⟩)
    next => cases h

theorem HeldSince.paceWhile {p : Supervision → Prop} {keep : Supervision → Bool}
    {turns : List (Option Task)} {mid : Supervision} (hkeep : ∀ s, keep s = true → p s)
    (h : HeldSince p begun mid) (hs : mid.paceWhile keep turns = some s) : HeldSince p begun s := by
  induction turns generalizing mid with
  | nil => exact Option.some.inj hs ▸ h
  | cons turn rest ih =>
    obtain ⟨next, hpace, hrest⟩ := Option.bind_eq_some_iff.mp hs
    split at hrest
    next hk => exact ih (.goesOn mid next h (.of_pace hpace) (hkeep next hk)) hrest
    next => cases hrest

theorem Paced.play {tasks : List Task} (h : s.Paced) (hp : s.play tasks = some next) :
    next.Paced := by
  induction tasks generalizing s with
  | nil => exact Option.some.inj hp ▸ h
  | cons t rest ih =>
    obtain ⟨mid, hstep, hrest⟩ := Option.bind_eq_some_iff.mp hp
    exact ih (.next s mid h (.task t mid hstep)) hrest

/-- The desk is in the middle of a reconciliation, as far as it can be computed. -/
def isSyncing (i : Nat) (s : Supervision) : Bool :=
  s.desks[i]?.any fun desk =>
    match desk.phase with
    | .reconciling .. => true
    | _ => false

theorem isSyncing_iff : s.isSyncing i = true ↔ s.IsSyncing i := by
  unfold isSyncing IsSyncing
  cases hd : s.desks[i]? with
  | none => simp
  | some desk => cases hphase : desk.phase <;> simp [hphase]

/-- The first child runs on whatever it is told, the addon points elsewhere now, and the hub never
answers a call for a subscription. -/
def wedged (s : Supervision) : Supervision :=
  let hub := (s.site.hub.storeAddon (specimen "a" "z")).announceAddon ⟨some "ns", "a"⟩ true
  { s with
    site := {
      s.site.setChild 0 (fun child => { child with body := .timed {} }) with
      hub := { hub with opens := ⟨[], .hang⟩ } } }

theorem Paced.wedged (h : s.Paced) : s.wedged.Paced :=
  .next _ _ (.next _ _ h (.turns 0 {})) (.hub _)

/-- A watcher that does not stop is to be replaced, and its successor never gets a stream: the
reconciliation is under way for as long as it may be. -/
theorem no_call_wedges_replacing : ∃ begun s : Supervision, HeldSince (IsSyncing 0) begun s ∧
    begun.site.now = 0 ∧ s.site.now = 60000 ∧ s.site.settings.cancelGrace = Span.ofSeconds 30 ∧
    s.site.settings.callTimeout = Span.ofSeconds 30 ∧ s.IsSyncing 0 ∧
    s.site.now ≤ begun.site.now + s.site.settings.cancelGrace.millis +
      s.site.settings.callTimeout.millis := by
  obtain ⟨first, hfirst, hp⟩ := (Option.any_eq_true ..).mp
    (show (sparing.play (opening 4)).any (fun first =>
      (first.wedged.play (.lead :: List.replicate 2 (.desk 0))).any fun before =>
        !before.isSyncing 0 && (before.step (.desk 0)).any fun begun => begun.isSyncing 0 &&
          begun.site.now = 0 && (begun.paceWhile (isSyncing 0)
            [some (.desk 0), none, some (.desk 0), none]).any fun s =>
              s.site.now = 60000 && s.site.settings.cancelGrace = Span.ofSeconds 30 &&
                s.site.settings.callTimeout = Span.ofSeconds 30) = true by decide +kernel)
  obtain ⟨before, hbefore, hp⟩ := (Option.any_eq_true ..).mp hp
  simp only [Bool.and_eq_true, Bool.not_eq_true'] at hp
  obtain ⟨hidle, hp⟩ := hp
  obtain ⟨begun, hstep, hp⟩ := (Option.any_eq_true ..).mp hp
  simp only [Bool.and_eq_true, decide_eq_true_eq] at hp
  obtain ⟨⟨hbegun, hzero⟩, hp⟩ := hp
  obtain ⟨s, hpace, hp⟩ := (Option.any_eq_true ..).mp hp
  simp only [Bool.and_eq_true, decide_eq_true_eq] at hp
  obtain ⟨⟨hnow, hgrace⟩, htimeout⟩ := hp
  have hstart : sparing.Paced := .start _ ⟨rfl, rfl, rfl, rfl, rfl, rfl⟩
  have hpaced : before.Paced := (hstart.play hfirst).wedged.play hbefore
  have hnot : ¬before.IsSyncing 0 := by
    rw [← isSyncing_iff, hidle]
    exact Bool.false_ne_true
  have hheld : HeldSince (IsSyncing 0) begun s :=
    (HeldSince.begins before hpaced hnot (.task _ _ hstep) (isSyncing_iff.mp hbegun)).paceWhile
      (fun s => isSyncing_iff.mp) hpace
  obtain ⟨-, hbound⟩ := (no_call_wedges hheld.paced).1 0 hheld.holds
  exact ⟨begun, s, hheld, hzero, hnow, hgrace, htimeout, hheld.holds, hbound begun hheld⟩

end Supervision

end AddonWatch

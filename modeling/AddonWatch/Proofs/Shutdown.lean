import AddonWatch.Proofs.Custody
import AddonWatch.Proofs.UpToDate

namespace AddonWatch

/-- A desk that takes up no more work has no watcher registered any more. -/
theorem Desk.Moves.emptied {desk desk' : Desk} {isSealed : Bool} {site site' : Site}
    (h : desk.Moves isSealed site site' desk') (hk : desk.KeepsRetries)
    (hold : desk.IsOpen ∨ desk.roster = {}) : desk'.IsOpen ∨ desk'.roster = {} := by
  cases h with
  | closes => exact .inr rfl
  | turns => exact hold
  | concludes text work rest next after roster verdict _ hphase _ hm hc =>
    have hkeeps := hk.working roster rest
    rcases hc.frame hkeeps with ⟨message, rfl⟩ | ⟨-, -, -, hphase', -⟩
    · exact .inr rfl
    · exact .inl ⟨by simp [hphase'], by simp [hphase']⟩
  | settles closing closing' next hphase => exact .inr (hold.resolve_left fun ho => ho.1 _ hphase)
  | finishes closing next hphase => exact .inr (hold.resolve_left fun ho => ho.1 _ hphase)
  | _ => exact .inl ⟨by simp [Desk.wake], by simp [Desk.wake]⟩

/-- A desk that is over without having broken down answers for no child. -/
theorem Desk.charges_of_isOver {desk : Desk} (hover : desk.isOver = true)
    (hempty : desk.IsOpen ∨ desk.roster = {}) (hup : desk.isDown = false) :
    desk.charges = [] := by
  unfold Desk.isOver at hover
  split at hover
  next hphase =>
    have hroster := hempty.resolve_left fun ho => ho.2 hphase
    simp [Desk.charges, hroster, hphase, Roster.children, DeskPhase.awaited]
  next hphase => simp [Desk.isDown, hphase] at hup
  next => cases hover

namespace Supervision

variable {w : Surroundings} {s next : Supervision}

theorem Reached.emptied (h : s.Reached w) :
    ∀ desk ∈ s.desks, desk.IsOpen ∨ desk.roster = {} := by
  induction h using Reached.induct with
  | start s hf ha => simp [hf.desks]
  | desk s site i desk desk' hr hr' hd hm ih =>
    intro other ho
    rcases List.mem_or_eq_of_mem_set ho with hold | rfl
    · exact ih other hold
    · exact hm.emptied (hr.orderly.desks i desk hd).retries (ih desk (List.mem_of_getElem? hd))
  | lead s next hr hr' hm ih =>
    exact hm.forall_desks (fun _ _ => .inl ⟨by simp, by simp⟩) (fun _ _ h => h) ih
  | _ => assumption

/-- The leading task waits for the desks when the scope is cancelled, and is over when it has had no
answer for its stream, or when all desks are over. -/
theorem LeadMoves.ending (h : s.LeadMoves next) :
    (next.lead = .joining → s.site.halted = true) ∧ ∀ verdict, next.lead = .ended verdict →
      s.IsUnopened ∧ next.desks = s.desks ∨
        s.lead = .joining ∧ ∀ desk ∈ next.desks, desk.isOver = true := by
  have hleading : ∀ {mid : Supervision} {more : Nat → List Work} {feed : Nat} {tick : Span}
      {streaming : Bool}, mid.HandsOut next more → mid.lead = .leading feed streaming tick →
        next.lead = .leading feed streaming tick := fun hout hlead => hout.lead.trans hlead
  cases h with
  | begins =>
    unfold begin
    dsimp only
    split
    · exact ⟨by simp, by simp⟩
    · exact ⟨by simp, by simp⟩
  | givesUp call deadline verdict hlead =>
    exact ⟨by simp, fun _ _ => .inl ⟨.inr ⟨call, deadline, hlead⟩, rfl⟩⟩
  | stops _ _ _ _ _ hh => exact ⟨fun _ => hh, by simp⟩
  | reports feed tick streaming key rest hlead =>
    have hnext := hleading (handsOut_dispatch _ key) hlead
    exact ⟨by simp [hnext], by simp [hnext]⟩
  | sees feed tick sighting hub hlead =>
    have hnext := hleading (handsOut_dispatch _ sighting.object.text) hlead
    exact ⟨by simp [hnext], by simp [hnext]⟩
  | overlooks feed tick sighting hub hlead => exact ⟨by simp [hlead], by simp [hlead]⟩
  | resyncs feed tick fault hub text hlead =>
    obtain ⟨more, hout⟩ := handsOut_resync
      (({ s with site := { s.site with hub := hub } } : Supervision).log .warn text)
    have hnext := hleading hout hlead
    exact ⟨by simp [hnext], by simp [hnext]⟩
  | joins hlead hover =>
    have hsends := Sends.of_handsOut (handsOut_reportCrashes s) rfl rfl rfl
    exact ⟨by simp, fun _ _ => .inr ⟨hlead,
      hsends.forall_desks (fun _ _ h => h) (List.all_eq_true.mp hover)⟩⟩
  | _ => exact ⟨by simp, by simp⟩

/-- What has led to it that the leading task waits for the desks, or is over. -/
structure WindsUp (s : Supervision) : Prop where
  joining : s.lead = .joining → s.site.halted = true
  closed : ∀ verdict, s.lead = .ended verdict → ∀ desk ∈ s.desks, desk.isOver = true
  scope : ∀ verdict, s.lead = .ended verdict → s.site.halted = true ∨ s.site.children = []

namespace WindsUp

theorem child {i : Nat} (h : s.WindsUp) (hstep : s.stepChild i = some next)
    (hh : s.site.halted = true → next.site.halted = true) : next.WindsUp := by
  obtain ⟨site, hchild, rfl⟩ := stepChild_cases hstep
  refine ⟨fun hl => hh (h.joining hl), h.closed, fun verdict hl => ?_⟩
  rcases h.scope verdict hl with hhalted | hnone
  · exact .inl (hh hhalted)
  · obtain ⟨child, hc, -⟩ := Site.stepChild_moves hchild
    simp [hnone] at hc

theorem desk {i : Nat} (h : s.WindsUp) (hstep : s.stepDesk i = some next)
    (hh : s.site.halted = true → next.site.halted = true) : next.WindsUp := by
  obtain ⟨desk, desk', site, hd, hm, rfl⟩ := stepDesk_cases hstep
  have hgoing : ∀ verdict, s.lead ≠ .ended verdict := by
    intro verdict hl
    have hover := h.closed verdict hl desk (List.mem_of_getElem? hd)
    rw [hm.not_over] at hover
    cases hover
  exact ⟨fun hl => hh (h.joining hl), fun verdict hl => absurd hl (hgoing verdict),
    fun verdict hl => absurd hl (hgoing verdict)⟩

theorem lead (h : s.WindsUp) (ho : s.Orderly) (hm : s.LeadMoves next) : next.WindsUp := by
  obtain ⟨hub, trace, exits, he, -⟩ := hm.shared
  obtain ⟨hjoining, hended⟩ := hm.ending
  refine ⟨fun hl => ?_, fun verdict hl desk hd => ?_, fun verdict hl => ?_⟩
  · rw [he]
    exact hjoining hl
  · rcases hended verdict hl with ⟨hu, hdesks⟩ | ⟨-, hover⟩
    · rw [hdesks, (ho.unopened hu).1] at hd
      cases hd
    · exact hover desk hd
  · rw [he]
    rcases hended verdict hl with ⟨hu, -⟩ | ⟨hl, -⟩
    · exact .inr (ho.unopened hu).2
    · exact .inl (h.joining hl)

end WindsUp

theorem Reached.windsUp (h : s.Reached w) : s.WindsUp := by
  induction h with
  | start s hf => exact ⟨by simp [hf.lead], by simp [hf.lead], by simp [hf.lead]⟩
  | next s next hr hm ih =>
    have hh := (hr.onward hm).halted
    cases hm with
    | task t _ hstep =>
      cases t with
      | child i => exact ih.child hstep hh
      | desk i => exact ih.desk hstep hh
      | lead => exact ih.lead hr.orderly (stepLead_moves hstep)
    | halt => exact ⟨fun _ => rfl, ih.closed, fun _ _ => .inl rfl⟩
    | _ => exact ⟨ih.joining, ih.closed, ih.scope⟩

/-- The next step of a cancelled watcher ends it. -/
theorem Reached.stepChild_ends (h : s.Reached w) {i : Nat} {child : Child}
    (hc : s.site.children[i]? = some child) (hn : s.site.isCancelled child = true)
    (hr : child.isFinished = false) :
    ∃ next, s.step (.child i) = some next ∧ next.site.isFinished i = true := by
  obtain ⟨f, hb⟩ := h.orderly.staffed.guarded hc
  have hrun : child.condition = .running := by simpa [Child.isFinished] using hr
  have hend : ∀ site : Site, s.site.stepChild i = some site → site.isFinished i = true →
      ∃ next, s.step (.child i) = some next ∧ next.site.isFinished i = true :=
    fun site hs hf => ⟨{ s with site := site }, by simp [step, stepChild, hs], hf⟩
  refine hend _ (Site.stepChild_cancelled hc hb hrun hn) ?_
  simp [Site.isFinished, hc, Child.isFinished]

/-- When a supervision is over, every watcher that it ever started is cancelled, and has ended. Only
a watcher whose desk has broken down, or which a desk waited for in a reconciliation that it dropped
when the scope was cancelled, may not have come to its end yet; then its next step is its last. -/
theorem children_end_with_run (h : s.Reached w) {verdict : Verdict}
    (hlead : s.lead = .ended verdict) {i : Nat} {child : Child}
    (hc : s.site.children[i]? = some child) :
    s.site.isCancelled child = true ∧ (child.isFinished = true ∨ ∃ a next,
      child.assignment? = some a ∧ (s.IsDown w (s.partition a.key.text) ∨ s.IsDropped w i) ∧
        s.step (.child i) = some next ∧ next.site.isFinished i = true) := by
  have hhalted : s.site.halted = true := by
    rcases h.windsUp.scope verdict hlead with hh | hnone
    · exact hh
    · simp [hnone] at hc
  have hn : s.site.isCancelled child = true := by simp [Site.isCancelled, hhalted]
  refine ⟨hn, ?_⟩
  cases hr : child.isFinished with
  | true => exact .inl rfl
  | false =>
    right
    obtain ⟨f, hb⟩ := h.orderly.staffed.guarded hc
    have ha : child.assignment? = some f.assignment := by simp [Child.assignment?, hb]
    obtain ⟨next, hstep, hend⟩ := h.stepChild_ends hc hn hr
    refine ⟨f.assignment, next, ha, ?_, hstep, hend⟩
    have hassigned : s.site.assignment? i = some f.assignment := by simp [Site.assignment?, hc, ha]
    have hrun : s.site.isFinished i = false := by rw [Site.isFinished_of_getElem? hc, hr]
    rcases h.charged hassigned hrun with hdrop | ⟨desk, hd, hcrashed | hcharge⟩
    · exact .inr hdrop
    · exact .inl (h.isDown hd hcrashed)
    · left
      have hm := List.mem_of_getElem? hd
      refine h.isDown hd ?_
      by_contra hup
      rw [Desk.charges_of_isOver (h.windsUp.closed verdict hlead desk hm) (h.emptied desk hm)
        (Bool.eq_false_iff.mpr hup)] at hcharge
      cases hcharge

/-- The scope is cancelled. -/
def halted (s : Supervision) : Supervision :=
  { s with site := { s.site with halted := true } }

/-- Every desk has come to its end without breaking down, as far as it can be computed. -/
def haveFinished (s : Supervision) : Bool :=
  s.desks.all fun desk =>
    match desk.phase with
    | .finished => true
    | _ => false

theorem phase_of_haveFinished (h : s.haveFinished = true) :
    ∀ desk ∈ s.desks, desk.phase = .finished := by
  intro desk hd
  have hf := List.all_eq_true.mp h desk hd
  split at hf
  next hphase => exact hphase
  next => cases hf

/-- The leading task is over, and nothing went wrong with it, as far as it can be computed. -/
def hasReturned (s : Supervision) : Bool :=
  match s.lead with
  | .ended .done => true
  | _ => false

theorem lead_of_hasReturned (h : s.hasReturned = true) : s.lead = .ended .done := by
  unfold hasReturned at h
  split at h
  next hlead => exact hlead
  next => cases h

/-- The watcher of the first addon is registered when the scope is cancelled, and has ended when the
supervision is over. -/
theorem children_end_with_run_first : ∃ (s : Supervision) (child : Child), s.Reached .calm ∧
    s.lead = .ended .done ∧ s.site.children[0]? = some child ∧
    s.site.isCancelled child = true ∧ child.isFinished = true := by
  obtain ⟨s, hs, hp⟩ := exists_of_play (opening 4) sparing_reached
    (p := fun s => (s.halted.play [.lead, .desk 0, .desk 0, .child 0, .desk 0, .desk 0, .lead]).any
      fun s => s.hasReturned && s.site.children[0]?.any Child.isFinished)
    (by decide +kernel)
  obtain ⟨s', hs', hp⟩ := exists_of_play _ (hs.next _ _ .halt) hp
  obtain ⟨hreturned, hended⟩ := (Bool.and_eq_true ..).mp hp
  obtain ⟨child, hc, hended⟩ := (Option.any_eq_true ..).mp hended
  have hlead := lead_of_hasReturned hreturned
  exact ⟨s', child, hs', hlead, hc, (children_end_with_run hs' hlead hc).1, hended⟩

/-- Although no desk has broken down, the watcher of the first addon has not ended when the
supervision is over: its desk had cancelled it for want of the addon, and dropped the wait for it
when the scope was cancelled. -/
theorem child_outlives_run : ∃ (s : Supervision) (child : Child), s.Reached .calm ∧
    s.lead = .ended .done ∧ (∀ desk ∈ s.desks, desk.phase = .finished) ∧
    s.site.children[0]? = some child ∧ child.isFinished = false := by
  obtain ⟨s, hs, hp⟩ := exists_of_play (opening 5) sparing_reached
    (p := fun s => s.isOpen && (s.withoutFirst.play
      (.lead :: List.replicate 3 (.desk 0))).any fun s =>
        (s.halted.play [.lead, .desk 0, .desk 0, .desk 0, .lead]).any fun s => s.hasReturned &&
          s.haveFinished && s.site.children[0]?.any fun child => !child.isFinished)
    (by decide +kernel)
  obtain ⟨hopen, hp⟩ := (Bool.and_eq_true ..).mp hp
  have hgone : s.withoutFirst.Reached .calm := hs.next _ _ (.hub _ (calm_of_isOpen hopen))
  obtain ⟨waiting, hwaiting, hp⟩ := exists_of_play _ hgone hp
  obtain ⟨last, hlast, hp⟩ := exists_of_play _ (hwaiting.next _ _ .halt) hp
  simp only [Bool.and_eq_true] at hp
  obtain ⟨⟨hreturned, hfinished⟩, hrun⟩ := hp
  obtain ⟨child, hc, hrun⟩ := (Option.any_eq_true ..).mp hrun
  exact ⟨last, child, hlast, lead_of_hasReturned hreturned, phase_of_haveFinished hfinished, hc,
    by simpa using hrun⟩

end Supervision

end AddonWatch

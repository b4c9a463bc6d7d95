import AddonWatch.Proofs.DecisionTable
import AddonWatch.Proofs.Returning

namespace AddonWatch

/-- How asking for the addon stream fails, if it does: with the refusal that is heard in time, or
for want of any answer in time. -/
def Site.openingFault? (site : Site) : Option Fault :=
  match site.hub.addonsOpen.within site.settings.callTimeout with
  | some (.refused refusal) => some (refusal.fault ⟨"", ""⟩ "")
  | some _ => none
  | none => some (.timeout site.settings.callTimeout)

namespace Supervision

variable {w : Surroundings} {s next later asked : Supervision}

/-- The addon stream has not been opened, and perhaps never will be. -/
def IsUnbegun (s : Supervision) : Prop :=
  s.IsUnopened ∨ ∃ fault, s.lead = .ended (.failed fault)

/-- Nothing has been spawned, opened, recorded or remarked on. -/
structure IsBlank (s : Supervision) : Prop where
  desks : s.desks = []
  children : s.site.children = []
  exits : s.site.exits = []
  trace : s.site.trace = []

theorem unbegun_of_step (h : s.stepLead = some next) (hn : next.IsUnbegun) :
    s.IsUnopened ∧ next = { s with lead := next.lead } := by
  have hnot : isOpenLead next.lead = false ∧ hasBegun next.lead = false ∧
      ∀ message, next.lead ≠ .broken message := by
    rcases hn with (hl | ⟨call, deadline, hl⟩) | ⟨fault, hl⟩ <;> simp [hl, isOpenLead, hasBegun]
  rcases stepLead_cases h with ⟨hfresh, rfl⟩ | ⟨call, deadline, hopening, hmoves⟩ | ⟨-, hbegun⟩
  · exact ⟨.inl hfresh, rfl⟩
  · refine ⟨.inr ⟨call, deadline, hopening⟩, ?_⟩
    cases hmoves with
    | begins _ _ hopen => simp [hopen] at hnot
    | breaks message _ _ hbroken => exact absurd hbroken (hnot.2.2 message)
    | _ => rfl
  · simp [hbegun] at hnot

theorem Moves.unbegun (hm : s.Moves w next) (hn : next.IsUnbegun) : s.IsUnbegun := by
  rcases hm.lead_cases with hsame | hstep
  · simpa only [IsUnbegun, IsUnopened, hsame] using hn
  · exact .inl (unbegun_of_step hstep hn).1

theorem IsBlank.lead_of_step {t : Task} (h : s.IsBlank) (hstep : s.step t = some next) :
    t = .lead := by
  cases t with
  | child i => simp [step, stepChild, Site.stepChild, h.children] at hstep
  | desk i => simp [step, stepDesk, h.desks] at hstep
  | lead => rfl

/-- Without the addon stream there is nobody who could do anything. -/
theorem Reached.isBlank (h : s.Reached w) (hu : s.IsUnbegun) : s.IsBlank := by
  induction h with
  | start s hf => exact ⟨hf.desks, hf.children, hf.exits, hf.trace⟩
  | next s next hr hm ih =>
    have hblank := ih (hm.unbegun hu)
    cases hm with
    | task t _ hstep =>
      obtain rfl := hblank.lead_of_step hstep
      rw [(unbegun_of_step hstep hu).2]
      exact ⟨hblank.desks, hblank.children, hblank.exits, hblank.trace⟩
    | _ => exact ⟨hblank.desks, hblank.children, hblank.exits, hblank.trace⟩

/-- A supervision that has failed or broken down has done so when it dealt with its call for the
addon stream. -/
theorem Reached.decided (h : s.Reached w)
    (hf : (∃ message, s.lead = .broken message) ∨ ∃ fault, s.lead = .ended (.failed fault)) :
    ∃ (mid next : Supervision) (call : Call) (deadline : Nat), mid.Reached w ∧ mid.Later w s ∧
      mid.lead = .opening call deadline ∧ mid.OpeningMoves call deadline next ∧
      mid.stepLead = some next ∧ next.lead = s.lead := by
  induction h with
  | start s hfresh =>
    rcases hf with ⟨message, hl⟩ | ⟨fault, hl⟩ <;> simp [hfresh.lead] at hl
  | next s s' hr hm ih =>
    rcases hm.lead_cases with hsame | hstep
    · rw [hsame] at hf
      obtain ⟨mid, next, call, deadline, hmid, hl, hopening, hmoves, hstep, hlead⟩ := ih hf
      exact ⟨mid, next, call, deadline, hmid, .next s s' hl hm, hopening, hmoves, hstep,
        hlead.trans hsame.symm⟩
    · rcases stepLead_cases hstep with ⟨-, rfl⟩ | ⟨call, deadline, hopening, hmoves⟩ | ⟨-, hbegun⟩
      · rcases hf with ⟨message, hl⟩ | ⟨fault, hl⟩ <;> cases hl
      · exact ⟨s, s', call, deadline, hr, .next s s' .refl hm, hopening, hmoves, hstep, rfl⟩
      · rcases hf with ⟨message, hl⟩ | ⟨fault, hl⟩ <;> simp [hl, hasBegun] at hbegun

/-- The states that a run comes to while the clock is kept: time goes by only when all tasks wait,
and no timer is passed. -/
inductive Clocked (w : Surroundings) : Supervision → Prop
  | start (s : Supervision) (hf : s.IsFresh) (ha : w.admits s.site.hub) : Clocked w s
  | next (s s' : Supervision) (h : Clocked w s) (hm : s.Moves w s') (hc : s.Clocks s') :
      Clocked w s'

theorem Clocked.reached (h : s.Clocked w) : s.Reached w := by
  induction h with
  | start s hf ha => exact .start s hf ha
  | next s s' _ hm _ ih => exact .next s s' ih hm

theorem Clocked.lead (h : s.Clocked w) (hstep : s.stepLead = some next) : next.Clocked w :=
  .next s next h (.task .lead next hstep) (.inl (stepLead_moves hstep).clock.1)

theorem Clocked.wait (h : s.Clocked w) (hrest : s.IsAtRest) (moment : Nat)
    (hm : s.site.now ≤ moment) (ht : ∀ timer ∈ s.timers, s.site.now < timer → moment ≤ timer) :
    ({ s with site := { s.site with now := moment } } : Supervision).Clocked w :=
  .next s _ h (.time moment hm) (.inr ⟨hrest, hm, ht⟩)

/-- The addon stream was asked for in that state. As long as no answer has been dealt with, the
deadline has not been passed; and then the supervision fails just as the call does. -/
structure StemsFrom (asked s : Supervision) : Prop where
  settings : s.site.settings = asked.site.settings
  started : s.lead ≠ .fresh
  opening : ∀ call deadline, s.lead = .opening call deadline →
    call.answer? = (⟨asked.site.now, asked.site.hub.addonsOpen⟩ : Call).answer? ∧
      call.IsPrompt s.site.now ∧ s.site.now ≤ deadline ∧
      deadline = asked.site.now + asked.site.settings.callTimeout.millis
  outcome : ¬s.IsUnopened → ∀ fault,
    s.lead = .ended (.failed fault) ↔ asked.site.openingFault? = some fault

/-- While the leading task waits for the addon stream its deadline and the answer are ahead. -/
theorem waits_of_rest {call : Call} {deadline : Nat} (hlead : s.lead = .opening call deadline)
    (hrest : s.stepLead = none) :
    call.advance s.site.now = .inl call ∧ s.site.now < deadline := by
  simp only [stepLead, hlead, stepOpening] at hrest
  split at hrest
  next => cases hrest
  next waiting hcall =>
    split at hrest
    next => cases hrest
    next hearly =>
      split at hrest
      next hsame => exact ⟨hsame ▸ hcall, Nat.lt_of_not_le hearly⟩
      next => cases hrest

namespace StemsFrom

theorem asks (hlead : asked.lead = .fresh) (h : asked.stepLead = some next) :
    StemsFrom asked next := by
  simp only [stepLead, hlead, Option.some.injEq] at h
  subst h
  refine ⟨rfl, by simp, fun call deadline hl => ?_, fun hu => absurd (.inr ⟨_, _, rfl⟩) hu⟩
  cases hl
  exact ⟨rfl, .inl (Nat.le_refl _), Nat.le_add_right _ _, rfl⟩

/-- Whatever happens meanwhile, the answer and the deadline are not missed. -/
theorem waits (h : StemsFrom asked s) (hlead : next.lead = s.lead)
    (hsettings : next.site.settings = s.site.settings) (hc : s.Clocks next) :
    StemsFrom asked next := by
  refine ⟨hsettings.trans h.settings, hlead ▸ h.started, fun call deadline hl => ?_,
    fun hu fault => ?_⟩
  · have hold : s.lead = .opening call deadline := hlead.symm.trans hl
    obtain ⟨hanswer, hprompt, hle, hdeadline⟩ := h.opening call deadline hold
    rcases hc with hnow | ⟨hrest, -, htimers⟩
    · rw [hnow]
      exact ⟨hanswer, hprompt, hle, hdeadline⟩
    · obtain ⟨hcall, hlt⟩ := waits_of_rest hold (hrest .lead)
      obtain ⟨-, hahead, -⟩ := Call.answer?_of_wait hprompt hcall
      have hmem : ∀ timer ∈ leadTimers s.lead, timer ∈ s.timers := fun timer ht =>
        List.mem_append_right _ ht
      have hdue : s.site.now < call.due → next.site.now ≤ call.due := fun hdue =>
        htimers _ (hmem _ (by simp [hold, leadTimers, Call.timers])) hdue
      have hnext : next.site.now ≤ deadline :=
        htimers _ (hmem _ (by simp [hold, leadTimers])) hlt
      exact ⟨hanswer, hahead.imp_left hdue, hnext, hdeadline⟩
  · have hold : ¬s.IsUnopened := by simpa only [IsUnopened, hlead] using hu
    rw [hlead]
    exact h.outcome hold fault

theorem openingMoves {call : Call} {deadline : Nat} (h : StemsFrom asked s)
    (hlead : s.lead = .opening call deadline) (hm : s.OpeningMoves call deadline next)
    (hsettings : next.site.settings = s.site.settings) : StemsFrom asked next := by
  obtain ⟨hanswer, hprompt, hle, hdeadline⟩ := h.opening call deadline hlead
  have hheard : ∀ {reply}, call.advance s.site.now = .inr reply →
      asked.site.hub.addonsOpen.within asked.site.settings.callTimeout = some reply := fun hcall =>
    Act.within_of_reply hanswer hprompt (hdeadline ▸ hle) hcall
  cases hm with
  | waits waiting hcall hearly =>
    obtain ⟨hsame, hahead, -⟩ := Call.answer?_of_wait hprompt hcall
    refine ⟨h.settings, by simp, fun _ _ hl => ?_, fun hu => absurd (.inr ⟨_, _, rfl⟩) hu⟩
    cases hl
    exact ⟨hsame.trans hanswer, hahead.imp_left Nat.le_of_lt, Nat.le_of_lt hearly, hdeadline⟩
  | givesUp waiting hcall hlate =>
    have hnone := Act.within_of_wait hanswer hprompt (hdeadline ▸ hlate) hcall
    refine ⟨h.settings, by simp, fun _ _ hl => by simp at hl, fun _ fault => ?_⟩
    simp [Site.openingFault?, hnone, h.settings]
  | refused refusal hcall =>
    refine ⟨h.settings, by simp, fun _ _ hl => by simp at hl, fun _ fault => ?_⟩
    simp [Site.openingFault?, hheard hcall]
  | crashes hcall =>
    refine ⟨h.settings, by simp, fun _ _ hl => by simp at hl, fun _ fault => ?_⟩
    simp [Site.openingFault?, hheard hcall]
  | begins hcall hset hopen =>
    have hne : ∀ lead, isOpenLead lead = false → s.begin.lead ≠ lead := by
      rintro lead hclosed rfl
      rw [hopen] at hclosed
      cases hclosed
    refine ⟨hsettings.trans h.settings, hne _ rfl, fun _ _ hl => absurd hl (hne _ rfl),
      fun _ fault => ?_⟩
    simp [Site.openingFault?, hheard hcall, hne (.ended (.failed fault)) rfl]
  | breaks message hcall _ hbroken =>
    refine ⟨hsettings.trans h.settings, by simp [hbroken], fun _ _ hl => ?_, fun _ fault => ?_⟩
    · simp [hbroken] at hl
    · simp [Site.openingFault?, hheard hcall, hbroken]

/-- Once the addon stream is open the supervision fails no more. -/
theorem goesOn (h : StemsFrom asked s) (hu : ¬s.IsUnopened) (hstep : s.stepLead = some next)
    (hsettings : next.site.settings = s.site.settings) (hbegun : hasBegun next.lead = true) :
    StemsFrom asked next := by
  have hnone : ∀ fault, asked.site.openingFault? ≠ some fault := by
    intro fault hfault
    simp [stepLead, (h.outcome hu fault).mpr hfault] at hstep
  have hne : ∀ lead, hasBegun lead = false → next.lead ≠ lead := by
    rintro lead hnot rfl
    rw [hbegun] at hnot
    cases hnot
  refine ⟨hsettings.trans h.settings, hne _ rfl, fun _ _ hl => absurd hl (hne _ rfl),
    fun _ fault => ?_⟩
  simp [hne (.ended (.failed fault)) rfl, hnone fault]

theorem moves (h : StemsFrom asked s) (hr : s.Reached w) (hm : s.Moves w next)
    (hc : s.Clocks next) : StemsFrom asked next := by
  have hsettings := (hr.onward hm).settings
  rcases hm.lead_cases with hsame | hstep
  · exact h.waits hsame hsettings hc
  · rcases stepLead_cases hstep with ⟨hfresh, -⟩ | ⟨call, deadline, hopening, hmoves⟩ |
      ⟨hu, hbegun⟩
    · exact absurd hfresh h.started
    · exact h.openingMoves hopening hmoves hsettings
    · exact h.goesOn hu hstep hsettings hbegun

end StemsFrom

theorem Clocked.stemsFrom (h : s.Clocked w) (hn : s.lead ≠ .fresh) :
    ∃ asked : Supervision, asked.Clocked w ∧ asked.lead = .fresh ∧ asked.Later w s ∧
      StemsFrom asked s := by
  induction h with
  | start s hf => exact absurd hf.lead hn
  | next s s' h hm hc ih =>
    by_cases hfresh : s.lead = .fresh
    · rcases hm.lead_cases with hsame | hstep
      · exact absurd (hsame.trans hfresh) hn
      · exact ⟨s, h, hfresh, .next s s' .refl hm, .asks hfresh hstep⟩
    · obtain ⟨asked, hasked, hlead, hlater, hstems⟩ := ih hfresh
      exact ⟨asked, hasked, hlead, .next s s' hlater hm, hstems.moves h.reached hm hc⟩

/-- How the hub is about to deal with the call for the addon stream. -/
def openingAct? (s : Supervision) : Option Act :=
  match s.lead with
  | .fresh => some s.site.hub.addonsOpen
  | .opening call _ => some call.act
  | _ => none

theorem isUnopened_of_openingAct? {act : Act} (h : s.openingAct? = some act) : s.IsUnopened := by
  unfold openingAct? at h
  split at h
  next hlead => exact .inl hlead
  next call deadline hlead => exact .inr ⟨call, deadline, hlead⟩
  next => cases h

/-- While nobody that is called breaks down, asking for the addon stream does not break down. -/
theorem Reached.opens_calmly (h : s.Reached .calm) :
    ∀ act, s.openingAct? = some act → act.IsCalm := by
  induction h with
  | start s hf ha =>
    intro act hact
    simp only [openingAct?, hf.lead, Option.some.injEq] at hact
    exact hact ▸ ha.1
  | next s s' hr hm ih =>
    intro act hact
    have hu := isUnopened_of_openingAct? hact
    have hblank := hr.isBlank (hm.unbegun (.inl hu))
    cases hm with
    | task t _ hstep =>
      obtain rfl := hblank.lead_of_step hstep
      rcases stepLead_cases hstep with ⟨hfresh, rfl⟩ | ⟨call, deadline, hopening, hmoves⟩ |
        ⟨hopened, -⟩
      · exact ih act (by simpa [openingAct?, hfresh] using hact)
      · have hcalm : call.act.IsCalm := ih call.act (by simp [openingAct?, hopening])
        cases hmoves with
        | waits waiting hcall =>
          simp only [openingAct?, Option.some.injEq] at hact
          exact hact ▸ (hcalm.advance s.site.now call.due).2 waiting hcall
        | begins _ _ hlead =>
          rcases hu with hl | ⟨_, _, hl⟩ <;> simp [hl, isOpenLead] at hlead
        | breaks _ _ _ hlead => rcases hu with hl | ⟨_, _, hl⟩ <;> simp [hl] at hlead
        | _ => simp [openingAct?] at hact
      · exact absurd (unbegun_of_step hstep (.inl hu)).1 hopened
    | hub hub ha =>
      rcases hu with hfresh | ⟨call, deadline, hopening⟩
      · have hfresh : s.lead = .fresh := hfresh
        simp only [openingAct?, hfresh, Option.some.injEq] at hact
        exact hact ▸ ha.1
      · have hopening : s.lead = .opening call deadline := hopening
        exact ih act (by simpa [openingAct?, hopening] using hact)
    | _ => exact ih act hact

theorem Reached.ended_cases (h : s.Reached w) {verdict : Verdict}
    (hl : s.lead = .ended verdict) :
    verdict = .done ∧ s.site.halted = true ∨ ∃ fault, verdict = .failed fault := by
  induction h with
  | start s hf => simp [hf.lead] at hl
  | next s s' hr hm ih =>
    have hhalted := (hr.onward hm).halted
    rcases hm.lead_cases with hsame | hstep
    · exact (ih (hsame.symm.trans hl)).imp_left (And.imp_right hhalted)
    · rcases stepLead_cases hstep with ⟨-, rfl⟩ | ⟨call, deadline, -, hmoves⟩ | ⟨hu, hbegun⟩
      · cases hl
      · cases hmoves with
        | givesUp => exact .inr ⟨_, (Lead.ended.inj hl).symm⟩
        | refused => exact .inr ⟨_, (Lead.ended.inj hl).symm⟩
        | begins _ _ hlead => simp [hl, isOpenLead] at hlead
        | breaks _ _ _ hlead => simp [hl] at hlead
        | _ => cases hl
      · have hdone : verdict = .done := by
          cases verdict <;> simp [hl, hasBegun] at hbegun ⊢
        rcases (stepLead_moves hstep).ending.2 verdict hl with ⟨hunopened, -⟩ | ⟨hjoining, -⟩
        · exact absurd hunopened hu
        · exact .inl ⟨hdone, hhalted (hr.windsUp.joining hjoining)⟩

/-- Each step that leaves the call for the addon stream unanswered leaves less of it. -/
theorem StemsFrom.shortens {call waiting : Call} {deadline deadline' : Nat}
    (h : StemsFrom asked s) (hlead : s.lead = .opening call deadline)
    (hstep : s.step .lead = some next) (hnext : next.lead = .opening waiting deadline') :
    waiting.act.delays < call.act.delays := by
  have hn : next.IsUnbegun := .inl (.inr ⟨waiting, deadline', hnext⟩)
  rcases stepLead_cases hstep with ⟨hfresh, -⟩ | ⟨call', deadline₀, hopening, hmoves⟩ | ⟨hu, -⟩
  · exact absurd hfresh h.started
  · obtain ⟨rfl, rfl⟩ := Lead.opening.inj (hlead.symm.trans hopening)
    cases hmoves with
    | waits waiting' hcall _ hmoved =>
      obtain ⟨rfl, -⟩ := Lead.opening.inj hnext
      obtain ⟨-, hprompt, -⟩ := h.opening call deadline hlead
      exact (Call.answer?_of_wait hprompt hcall).2.2.resolve_left hmoved
    | begins _ _ hopen => simp [hnext, isOpenLead] at hopen
    | breaks _ _ _ hbroken => simp [hnext] at hbroken
    | _ => cases hnext
  · exact absurd (unbegun_of_step hstep hn).1 hu

/-- As long as the call for the addon stream is unanswered, the tasks can take no more steps than it
has delays. -/
theorem StemsFrom.length_play {tasks : List Task} {call waiting : Call} {deadline deadline' : Nat}
    (h : StemsFrom asked s) (hr : s.Reached w) (hlead : s.lead = .opening call deadline)
    (hp : s.play tasks = some later) (hlater : later.lead = .opening waiting deadline') :
    tasks.length + waiting.act.delays ≤ call.act.delays := by
  induction tasks generalizing s call deadline with
  | nil =>
    obtain rfl := Option.some.inj hp
    obtain ⟨rfl, -⟩ := Lead.opening.inj (hlead.symm.trans hlater)
    simp
  | cons t rest ih =>
    obtain ⟨mid, hstep, hrest⟩ := Option.bind_eq_some_iff.mp hp
    obtain rfl := (hr.isBlank (.inl (.inr ⟨call, deadline, hlead⟩))).lead_of_step hstep
    have hm : s.Moves w mid := .task .lead mid hstep
    have hnext : StemsFrom asked mid := h.moves hr hm (.inl (stepLead_moves hstep).clock.1)
    have hmid : mid.IsUnopened :=
      (Later.play .refl hrest).unopened (w := w) (.inr ⟨waiting, deadline', hlater⟩)
    rcases hmid with hfresh | ⟨call', deadline₁, hopening⟩
    · exact absurd hfresh hnext.started
    · have hlt := h.shortens hlead hstep hopening
      have hle := ih hnext (.next s mid hr hm) hopening hrest
      simp only [List.length_cons]
      omega

/-- While nobody that is called breaks down, a supervision breaks down only when the addon stream is
open and no resync can be set, and a desk only when it has to set an alarm too far ahead; as long as
work is handed out there is a desk for every key. A supervision that is over has returned after the
scope was cancelled, or has failed, and then nothing has been spawned, opened or recorded. Under a
clock it fails exactly if the call for the addon stream is refused or not answered in time, and then
with that refusal or the timeout; it takes no more steps than the answer has delays until it is
heard, and does not wait for it beyond the time for one call. Once the stream is open and the scope
is cancelled the tasks take no more steps than there are to do, nothing adds to them, and when no
task can take one the supervision is over. -/
theorem fails_only_unopened (h : s.Reached .calm) :
    (∀ message, s.lead = .broken message →
      ∃ (mid : Supervision) (call : Call) (deadline : Nat), mid.Reached .calm ∧
        mid.Later .calm s ∧ mid.lead = .opening call deadline ∧
        call.advance mid.site.now = .inr .granted ∧
        mid.site.settings.resyncFault? mid.site.now = some message) ∧
    (∀ (i : Nat) (desk : Desk), s.desks[i]? = some desk → desk.isDown = true →
      ∃ (mid : Supervision) (earlier : Desk), mid.Reached .calm ∧ mid.Later .calm s ∧
        mid.desks[i]? = some earlier ∧ earlier.IsOverreaching mid.site) ∧
    (s.isSealed = false → ∀ key, s.partition key < s.desks.length) ∧
    (∀ verdict, s.lead = .ended verdict → verdict = .done ∧ s.site.halted = true ∨
      s.IsBlank ∧ ∃ (fault : Fault) (mid : Supervision) (call : Call) (deadline : Nat),
        verdict = .failed fault ∧ mid.Reached .calm ∧ mid.Later .calm s ∧
        mid.lead = .opening call deadline ∧
        mid.OpeningMoves call deadline { mid with lead := .ended (.failed fault) }) ∧
    (s.Clocked .calm → s.lead ≠ .fresh → ∃ asked : Supervision,
      asked.Clocked .calm ∧ asked.lead = .fresh ∧ asked.Later .calm s ∧
      (∀ call deadline, s.lead = .opening call deadline →
        s.site.now ≤ asked.site.now + asked.site.settings.callTimeout.millis ∧
        (s.step .lead = none →
          s.site.now < asked.site.now + asked.site.settings.callTimeout.millis) ∧
        ∀ tasks later waiting, s.play tasks = some later →
          later.lead = .opening waiting deadline →
            tasks.length + waiting.act.delays ≤ call.act.delays) ∧
      (¬s.IsUnopened → ∀ fault,
        s.lead = .ended (.failed fault) ↔ asked.site.openingFault? = some fault)) ∧
    (s.site.halted = true → ¬s.IsUnopened →
      (∀ next, s.Moves .calm next → next.toDo ≤ s.toDo) ∧
      ∀ tasks later, s.play tasks = some later →
        tasks.length + later.toDo ≤ s.toDo ∧ (later.IsAtRest →
          (∃ verdict, later.lead = .ended verdict) ∨
            ∃ message, later.lead = .broken message)) := by
  refine ⟨fun message hl => ?_, fun i desk hd hcrashed => ?_, fun hopen key => ?_,
    fun verdict hl => ?_, fun hclocked hn => ?_, fun hh hu => ⟨fun next => h.toDo_le hh hu,
      fun tasks later => h.returns hh hu⟩⟩
  · obtain ⟨mid, next, call, deadline, hmid, hlater, hopening, hmoves, -, hlead⟩ :=
      h.decided (.inl ⟨message, hl⟩)
    rw [hl] at hlead
    cases hmoves with
    | crashes hcall =>
      have hcalm : call.act.IsCalm := hmid.opens_calmly _ (by simp [openingAct?, hopening])
      exact absurd rfl ((hcalm.advance mid.site.now call.due).1 _ hcall)
    | begins _ _ hopen => simp [hlead, isOpenLead] at hopen
    | breaks message' hcall hfault hbroken =>
      obtain rfl := Lead.broken.inj (hbroken.symm.trans hlead)
      exact ⟨mid, call, deadline, hmid, hlater, hopening, hcall, hfault⟩
    | _ => cases hlead
  · exact (h.isDown hd hcrashed).overreached Surroundings.isCalm_calm
  · exact Nat.mod_lt _ (h.isManned.desks hopen)
  · rcases h.ended_cases hl with hdone | ⟨fault, rfl⟩
    · exact .inl hdone
    · right
      obtain ⟨mid, next, call, deadline, hmid, hlater, hopening, hmoves, hstep, hlead⟩ :=
        h.decided (.inr ⟨fault, hl⟩)
      have hfailed := hlead.trans hl
      have hnext := (unbegun_of_step hstep (.inr ⟨fault, hfailed⟩)).2
      rw [hfailed] at hnext
      exact ⟨h.isBlank (.inr ⟨fault, hl⟩), fault, mid, call, deadline, rfl, hmid, hlater, hopening,
        hnext ▸ hmoves⟩
  · obtain ⟨asked, hasked, hlead, hlater, hstems⟩ := hclocked.stemsFrom hn
    refine ⟨asked, hasked, hlead, hlater, fun call deadline hl => ?_, hstems.outcome⟩
    obtain ⟨-, -, hle, hdeadline⟩ := hstems.opening call deadline hl
    exact ⟨hdeadline ▸ hle, fun hrest => hdeadline ▸ (waits_of_rest hl hrest).2,
      fun tasks later waiting hp hlater => hstems.length_play h hl hp hlater⟩

/-- The call for the addon stream is never answered. -/
def unanswered : Supervision where
  site := { hub := { addonsOpen := .hang } }
  lead := .fresh

theorem fails_only_unopened_late :
    (∃ s asked : Supervision, s.Clocked .calm ∧ s.site.now = 30000 ∧
      s.lead = .ended (.failed (.timeout (Span.ofMillis 30000))) ∧ s.IsBlank ∧
      asked.Later .calm s ∧
      asked.site.openingFault? = some (.timeout (Span.ofMillis 30000))) ∧
    ∃ s : Supervision, s.Reached .calm ∧ s.lead = .ended .done ∧ s.site.halted = true := by
  constructor
  · have hcalm : unanswered.site.hub.IsCalm := by
      simp [Hub.IsCalm, Script.IsCalm, Script.Gives, Act.IsCalm, Act.Gives, unanswered]
    have hfresh : unanswered.Clocked .calm := .start _ ⟨rfl, rfl, rfl, rfl, rfl, rfl⟩ hcalm
    have hasked := hfresh.lead rfl
    have hwaited := hasked.wait (isAtRest_of_tasks (by decide)) 30000 (by decide)
      (by decide)
    have hfailed : Clocked .calm { unanswered with
        site := { unanswered.site with now := 30000 }
        lead := .ended (.failed (.timeout (Span.ofMillis 30000))) } :=
      hwaited.lead (by simp [stepLead, stepOpening, unanswered, Call.advance, Act.advance,
        Span.millis, Span.ofSeconds, Span.ofMillis])
    obtain ⟨-, -, -, hended, hclock, -⟩ := fails_only_unopened hfailed.reached
    obtain ⟨hblank, -⟩ := (hended _ rfl).resolve_left (by simp)
    obtain ⟨asked, -, -, hlater, -, houtcome⟩ := hclock hfailed (by simp)
    exact ⟨_, asked, hfailed, rfl, rfl, hblank, hlater, (houtcome (by simp [IsUnopened]) _).mp rfl⟩
  · obtain ⟨mid, hmid, hp⟩ := exists_of_play (opening 4) sparing_reached
      (p := fun s => (s.halted.play
        [.lead, .desk 0, .desk 0, .child 0, .desk 0, .desk 0, .lead]).any hasReturned)
      (by decide +kernel)
    obtain ⟨s, hs, hreturned⟩ := exists_of_play _ (hmid.next _ _ .halt) hp
    have hlead := lead_of_hasReturned hreturned
    obtain ⟨-, -, -, hended, -⟩ := fails_only_unopened hs
    obtain ⟨-, hhalted⟩ := (hended _ hlead).resolve_right (by simp)
    exact ⟨s, hs, hlead, hhalted⟩

/-- No time is to lie between two resyncs. -/
def restless : Supervision where
  site := { settings := { resyncInterval := ⟨0⟩ } }
  lead := .fresh

/-- Although nobody that is called has broken down and the addon stream was opened, a supervision
breaks down that was given no time between resyncs, and so does a desk that was given retries
further apart than alarms can be set. -/
theorem breaks_down_by_settings :
    (∃ s : Supervision, s.Reached .calm ∧ s.site.settings.resyncInterval = ⟨0⟩ ∧
      s.lead = .broken "\x60period\x60 must be non-zero.") ∧
    ∃ (s : Supervision) (desk : Desk), s.Reached .calm ∧
      s.site.settings.retry.initial = Span.ofMillis 68719476736 ∧ s.desks[0]? = some desk ∧
      desk.isDown = true := by
  constructor
  · have hcalm : restless.site.hub.IsCalm := by
      simp [Hub.IsCalm, Script.IsCalm, Script.Gives, Act.IsCalm, Act.Gives, restless]
    have hfresh : restless.Reached .calm := .start _ ⟨rfl, rfl, rfl, rfl, rfl, rfl⟩ hcalm
    have hplay : restless.play [.lead, .lead] = some _ := rfl
    exact ⟨_, hfresh.play hplay, rfl, rfl⟩
  · obtain ⟨s, hs, hp⟩ := exists_of_play (opening 9) overreaching_reached
      (p := fun s => s.isDown 0 && s.site.settings.retry.initial = Span.ofMillis 68719476736)
      (by decide +kernel)
    simp only [Bool.and_eq_true, decide_eq_true_eq] at hp
    obtain ⟨hdown, hretry⟩ := hp
    obtain ⟨desk, hd, hcrashed⟩ := (isDown_of_computed hs hdown).crashed
    exact ⟨s, desk, hs, hretry, hd, hcrashed⟩

end Supervision

end AddonWatch

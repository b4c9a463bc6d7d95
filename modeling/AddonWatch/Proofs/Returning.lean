import AddonWatch.Proofs.ParallelClosing
import AddonWatch.Proofs.Standstill
import AddonWatch.Proofs.Unwedged
import Mathlib.Data.Finset.Card
import Mathlib.Data.Finset.Range

namespace AddonWatch

theorem Closing.length_of_step {c c' : Closing} {site next : Site}
    (h : c.step site = some (next, some c')) : c'.pending.length + 1 = c.pending.length := by
  unfold step at h
  split at h
  · cases h
  · obtain ⟨⟨after, rest⟩, hs, h⟩ := Option.map_eq_some_iff.mp h
    cases h
    obtain ⟨before, key, s, behind, mid, inTime, hpending, hrest, -⟩ := cases_of_settleOne hs
    simp only [hpending, hrest, List.length_append, List.length_cons]
    omega

/-- What keeps a roster from closing is a child that runs on. -/
theorem Closing.running_of_wait {c : Closing} {site : Site} (h : c.step site = none) :
    ∃ i, site.isFinished i = false := by
  have hwork : c.work site = none := Option.map_eq_none_iff.mpr h
  obtain ⟨hopen, hwaits⟩ := wait_of_work hwork
  obtain ⟨e, he⟩ := List.exists_mem_of_ne_nil _ hopen
  exact ⟨_, (Settling.running_of_wait (hwaits e he)).1⟩

namespace Desk

/-- How many steps a desk takes at most until it is over, once the scope is cancelled. -/
def toDo (desk : Desk) : Nat :=
  match desk.phase with
  | .idle => desk.roster.entries.length + 2
  | .working _ => desk.roster.entries.length + 3
  | .reconciling _ _ _ => desk.roster.entries.length + 3
  | .closing closing => closing.pending.length + 1
  | .finished => 0
  | .crashed _ => 0

variable {desk desk' : Desk} {isSealed : Bool} {site site' : Site}

theorem Moves.toDo_lt (h : desk.Moves isSealed site site' desk') (hh : site.halted = true) :
    desk'.toDo < desk.toDo := by
  have hgoing : site.halted ≠ false := by simp [hh]
  cases h with
  | closes alarms hphase =>
    have hpending : (Closing.start desk.roster site.settings.cancelGrace site).2.pending.length =
        desk.roster.entries.length := List.length_map _
    simp only [toDo, hphase, hpending]
    omega
  | rests hphase =>
    simp only [toDo, hphase]
    omega
  | drops _ hphase =>
    rcases hphase with ⟨keys, hphase⟩ | ⟨text, work, rest, hphase⟩
    · simp only [toDo, hphase]
      omega
    · simp only [toDo, hphase]
      omega
  | settles closing closing' next hphase hc =>
    have hlength := Closing.length_of_step hc
    simp only [toDo, hphase]
    omega
  | finishes closing next hphase =>
    simp only [toDo, hphase]
    omega
  | wakes _ _ _ hn => exact absurd hn hgoing
  | takes _ _ _ _ hn => exact absurd hn hgoing
  | looks _ _ _ hn => exact absurd hn hgoing
  | turns _ _ hn => exact absurd hn hgoing
  | begins _ _ _ hn => exact absurd hn hgoing
  | goesOn _ _ _ _ _ _ _ hn => exact absurd hn hgoing
  | concludes _ _ _ _ _ _ _ _ _ hn => exact absurd hn hgoing

end Desk

namespace Site

variable {old new : Site} {i : Nat}

/-- The children that have not ended. -/
def unfinished (site : Site) : Finset Nat :=
  (Finset.range site.children.length).filter fun i => site.isFinished i = false

theorem mem_unfinished : i ∈ old.unfinished ↔ old.isFinished i = false := by
  simp only [unfinished, Finset.mem_filter, Finset.mem_range, and_iff_right_iff_imp]
  intro hrun
  by_contra hge
  simp [isFinished, List.getElem?_eq_none (Nat.le_of_not_lt hge)] at hrun

theorem Ages.unfinished_subset (h : old.Ages new) : new.unfinished ⊆ old.unfinished := by
  intro i hi
  exact mem_unfinished.mpr (h.running i (mem_unfinished.mp hi))

theorem Ages.unfinished_le (h : old.Ages new) : new.unfinished.card ≤ old.unfinished.card :=
  Finset.card_le_card h.unfinished_subset

theorem Ages.unfinished_lt (h : old.Ages new) (hold : old.isFinished i = false)
    (hnew : new.isFinished i = true) : new.unfinished.card < old.unfinished.card := by
  apply Finset.card_lt_card
  refine ⟨h.unfinished_subset, fun hsub => ?_⟩
  have hstill := mem_unfinished.mp (hsub (mem_unfinished.mpr hold))
  rw [hnew] at hstill
  cases hstill

end Site

theorem sum_map_set_lt {α : Type} {f : α → Nat} {items : List α} {i : Nat} {old new : α}
    (hi : items[i]? = some old) (hf : f new < f old) :
    ((items.set i new).map f).sum < (items.map f).sum := by
  obtain ⟨hlt, hget⟩ := List.getElem?_eq_some_iff.mp hi
  obtain ⟨before, behind, hitems, -, hset⟩ : ∃ before behind, items = before ++ items[i] :: behind ∧
      before.length = i ∧ items.set i new = before ++ new :: behind := List.exists_of_set hlt
  rw [hget] at hitems
  rw [hset, hitems]
  simp only [List.map_append, List.map_cons, List.sum_append, List.sum_cons]
  omega

namespace Supervision

variable {w : Surroundings} {s next later : Supervision} {t : Task}

/-- What becomes of the call for the addon stream, and so of the supervision that has made it. -/
inductive OpeningMoves (s : Supervision) (call : Call) (deadline : Nat) : Supervision → Prop
  | waits (waiting : Call) (hcall : call.advance s.site.now = .inl waiting)
      (hearly : s.site.now < deadline) (hmoved : waiting ≠ call) :
      OpeningMoves s call deadline { s with lead := .opening waiting deadline }
  | givesUp (waiting : Call) (hcall : call.advance s.site.now = .inl waiting)
      (hlate : deadline ≤ s.site.now) :
      OpeningMoves s call deadline { s with
        lead := .ended (.failed (.timeout s.site.settings.callTimeout)) }
  | refused (refusal : Refusal) (hcall : call.advance s.site.now = .inr (.refused refusal)) :
      OpeningMoves s call deadline { s with
        lead := .ended (.failed (refusal.fault ⟨"", ""⟩ "")) }
  | crashes (hcall : call.advance s.site.now = .inr .crashed) :
      OpeningMoves s call deadline { s with lead := .broken "injected panic" }
  | begins (hcall : call.advance s.site.now = .inr .granted)
      (hset : s.site.settings.resyncFault? s.site.now = none)
      (hlead : isOpenLead s.begin.lead = true) : OpeningMoves s call deadline s.begin
  | breaks (message : String) (hcall : call.advance s.site.now = .inr .granted)
      (hfault : s.site.settings.resyncFault? s.site.now = some message)
      (hlead : s.begin.lead = .broken message) : OpeningMoves s call deadline s.begin

theorem answered_moves {call : Call} {deadline : Nat} {reply : Reply}
    (hcall : call.advance s.site.now = .inr reply) :
    s.OpeningMoves call deadline (s.answered reply) := by
  cases reply with
  | granted =>
    cases hfault : s.site.settings.resyncFault? s.site.now with
    | none =>
      refine .begins hcall hfault ?_
      unfold begin
      simp [log, Site.log, Site.mark, hfault, isOpenLead]
    | some message =>
      refine .breaks message hcall hfault ?_
      unfold begin
      simp [log, Site.log, Site.mark, hfault, release]
  | refused refusal => exact .refused refusal hcall
  | crashed => exact .crashes hcall

/-- Work is handed out, or has been. -/
def hasBegun : Lead → Bool
  | .leading _ _ _ => true
  | .joining => true
  | .ended .done => true
  | _ => false

/-- Once the addon stream is open the leading task hands out work, then waits for the desks, and
returns. -/
theorem LeadMoves.opened (h : s.LeadMoves next) (hu : ¬s.IsUnopened) :
    hasBegun next.lead = true := by
  have hleading : ∀ {mid : Supervision} {more : Nat → List Work} {feed : Nat} {tick : Span}
      {streaming : Bool}, mid.HandsOut next more → mid.lead = .leading feed streaming tick →
        hasBegun next.lead = true := by
    intro mid more feed tick streaming hout hlead
    rw [hout.lead, hlead]
    rfl
  cases h with
  | asks hlead => exact absurd (.inl hlead) hu
  | waits call _ deadline hlead => exact absurd (.inr ⟨call, deadline, hlead⟩) hu
  | begins call deadline hlead => exact absurd (.inr ⟨call, deadline, hlead⟩) hu
  | givesUp call deadline _ hlead => exact absurd (.inr ⟨call, deadline, hlead⟩) hu
  | breaks call deadline _ hlead => exact absurd (.inr ⟨call, deadline, hlead⟩) hu
  | reports feed tick streaming key rest hlead =>
    exact hleading (handsOut_dispatch _ key) hlead
  | sees feed tick sighting hub hlead =>
    exact hleading (handsOut_dispatch _ sighting.object.text) hlead
  | overlooks feed tick sighting hub hlead => simp [hlead, hasBegun]
  | resyncs feed tick fault hub text hlead =>
    obtain ⟨more, hout⟩ := handsOut_resync
      (({ s with site := { s.site with hub := hub } } : Supervision).log .warn text)
    exact hleading hout hlead
  | _ => rfl

/-- Where the leading task can come from and go to: it asks for the addon stream, deals with that
call, or hands out work, then waits for the desks, and returns. -/
theorem stepLead_cases (h : s.stepLead = some next) :
    (s.lead = .fresh ∧ next = { s with
      lead := .opening ⟨s.site.now, s.site.hub.addonsOpen⟩
        (s.site.now + s.site.settings.callTimeout.millis) }) ∨
    (∃ call deadline, s.lead = .opening call deadline ∧ s.OpeningMoves call deadline next) ∨
    ¬s.IsUnopened ∧ hasBegun next.lead = true := by
  by_cases hu : s.IsUnopened
  · rcases hu with hfresh | ⟨call, deadline, hopening⟩
    · simp only [stepLead, hfresh, Option.some.injEq] at h
      exact .inl ⟨hfresh, h.symm⟩
    · refine .inr (.inl ⟨call, deadline, hopening, ?_⟩)
      simp only [stepLead, hopening, stepOpening] at h
      split at h
      next reply hcall =>
        cases h
        exact answered_moves hcall
      next waiting hcall =>
        split at h
        next hlate =>
          cases h
          exact .givesUp waiting hcall hlate
        next hearly =>
          split at h
          next => cases h
          next hmoved =>
            cases h
            exact .waits waiting hcall (Nat.lt_of_not_le hearly) hmoved
  · exact .inr (.inr ⟨hu, (stepLead_moves h).opened hu⟩)

/-- Nothing but its own steps brings the leading task further. -/
theorem Moves.lead_cases (hm : s.Moves w next) : next.lead = s.lead ∨ s.stepLead = some next := by
  cases hm with
  | task t _ hstep =>
    cases t with
    | child i =>
      obtain ⟨site, -, rfl⟩ := stepChild_cases hstep
      exact .inl rfl
    | desk i =>
      obtain ⟨desk, desk', site, -, -, rfl⟩ := stepDesk_cases hstep
      exact .inl rfl
    | lead => exact .inr hstep
  | _ => exact .inl rfl

theorem Moves.unopened (hm : s.Moves w next) (hn : next.IsUnopened) : s.IsUnopened := by
  rcases hm.lead_cases with hsame | hstep
  · simpa only [IsUnopened, hsame] using hn
  · exact (stepLead_moves hstep).unopened hn

theorem Later.unopened (hl : s.Later w later) (hn : later.IsUnopened) : s.IsUnopened := by
  induction hl with
  | refl => exact hn
  | next mid s' _ hm ih => exact ih (hm.unopened hn)

theorem Reached.not_absent (h : s.Reached w) : s.lead ≠ .absent := by
  induction h with
  | start s hf => simp [hf.lead]
  | next s next hr hm ih =>
    intro habsent
    rcases hm.lead_cases with hsame | hstep
    · exact ih (hsame.symm.trans habsent)
    · rcases stepLead_cases hstep with ⟨-, rfl⟩ | ⟨call, deadline, -, hmoves⟩ | ⟨-, hbegun⟩
      · cases habsent
      · cases hmoves with
        | begins _ _ hlead => simp [habsent, isOpenLead] at hlead
        | breaks _ _ _ hlead => simp [habsent] at hlead
        | _ => cases habsent
      · simp [habsent, hasBegun] at hbegun

def leadToDo : Lead → Nat
  | .leading _ _ _ => 2
  | .joining => 1
  | _ => 0

/-- How many steps all tasks take at most until the supervision is over, once the addon stream is
open and the scope is cancelled. -/
def toDo (s : Supervision) : Nat :=
  leadToDo s.lead + (s.desks.map Desk.toDo).sum + s.site.unfinished.card

theorem Sends.desks_toDo {more : Nat → List Work} (h : s.Sends next more) :
    next.desks.map Desk.toDo = s.desks.map Desk.toDo := by
  apply List.ext_getElem?
  intro i
  rw [List.getElem?_map, List.getElem?_map, h.desks, Option.map_map]
  rfl

theorem LeadMoves.toDo_lt (h : s.LeadMoves next) (hh : s.site.halted = true)
    (hu : ¬s.IsUnopened) : next.toDo < s.toDo := by
  cases h with
  | stops feed tick streaming text hlead =>
    have hbefore : s.toDo = 2 + (s.desks.map Desk.toDo).sum + s.site.unfinished.card := by
      simp only [toDo, hlead, leadToDo]
    have hnext : ({ (s.log .info text).release feed with lead := .joining } : Supervision).toDo =
        1 + (s.desks.map Desk.toDo).sum + s.site.unfinished.card := rfl
    omega
  | joins hlead =>
    have hsends := Sends.of_handsOut (handsOut_reportCrashes s) rfl rfl rfl
    obtain ⟨trace, hsite⟩ := (handsOut_reportCrashes s).site
    have hbefore : s.toDo = 1 + (s.desks.map Desk.toDo).sum + s.site.unfinished.card := by
      simp only [toDo, hlead, leadToDo]
    have hsame : s.reportCrashes.site.unfinished = s.site.unfinished := by
      rw [hsite]
      rfl
    have hnext : ({ s.reportCrashes with lead := .ended .done } : Supervision).toDo =
        (s.desks.map Desk.toDo).sum + s.site.unfinished.card := by
      simp only [toDo, leadToDo, hsends.desks_toDo, hsame, Nat.zero_add]
    omega
  | asks hlead => exact absurd (.inl hlead) hu
  | waits call _ deadline hlead => exact absurd (.inr ⟨call, deadline, hlead⟩) hu
  | begins call deadline hlead => exact absurd (.inr ⟨call, deadline, hlead⟩) hu
  | givesUp call deadline _ hlead => exact absurd (.inr ⟨call, deadline, hlead⟩) hu
  | breaks call deadline _ hlead => exact absurd (.inr ⟨call, deadline, hlead⟩) hu
  | reports _ _ _ _ _ _ hn => simp [hh] at hn
  | sees _ _ _ _ _ hn => simp [hh] at hn
  | overlooks _ _ _ _ _ hn => simp [hh] at hn
  | resyncs _ _ _ _ _ _ hn => simp [hh] at hn
  | outlives _ _ _ _ _ hn => simp [hh] at hn
  | ticks _ _ _ _ hn => simp [hh] at hn

/-- With the scope cancelled every step of a task brings the end nearer. -/
theorem Reached.toDo_lt (h : s.Reached w) (hh : s.site.halted = true) (hu : ¬s.IsUnopened)
    (hstep : s.step t = some next) : next.toDo < s.toDo := by
  cases t with
  | child i =>
    obtain ⟨site, child, f, rfl, hc, hb, hrun, hm⟩ := stepChild_moves hstep h.orderly.staffed
    have hup : child.isFinished = false := by simp [Child.isFinished, hrun]
    have hn : s.site.isCancelled child = true := by simp [Site.isCancelled, hh]
    obtain ⟨ended, hends, hover⟩ := h.stepChild_ends hc hn hup
    obtain rfl := Option.some.inj (hstep.symm.trans hends)
    have hold : s.site.isFinished i = false := by rw [Site.isFinished_of_getElem? hc, hup]
    have hlt : site.unfinished.card < s.site.unfinished.card :=
      (hm.ages hc hb).unfinished_lt hold hover
    simp only [toDo]
    omega
  | desk i =>
    obtain ⟨desk, desk', site, hd, hm, rfl⟩ := stepDesk_cases hstep
    have hle : site.unfinished.card ≤ s.site.unfinished.card :=
      (hm.of_halted hh).1.ages.unfinished_le
    have hlt := sum_map_set_lt hd (hm.toDo_lt hh)
    simp only [toDo]
    omega
  | lead => exact (stepLead_moves hstep).toDo_lt hh hu

/-- Whatever else happens puts the end off no further. -/
theorem Reached.toDo_le (h : s.Reached w) (hh : s.site.halted = true) (hu : ¬s.IsUnopened)
    (hm : s.Moves w next) : next.toDo ≤ s.toDo := by
  cases hm with
  | task t _ hstep => exact Nat.le_of_lt (h.toDo_lt hh hu hstep)
  | _ => exact Nat.le_refl _

/-- With the scope cancelled and the addon stream open, no task waits but those of a supervision
that is over. -/
theorem Reached.over_of_rest (h : s.Reached w) (hh : s.site.halted = true) (hu : ¬s.IsUnopened)
    (hrest : s.IsAtRest) :
    (∃ verdict, s.lead = .ended verdict) ∨ ∃ message, s.lead = .broken message := by
  have hended : ∀ i, s.site.isFinished i = true := by
    intro i
    by_contra hrun
    have hup : s.site.isFinished i = false := by simpa using hrun
    obtain ⟨child, hc⟩ : ∃ child, s.site.children[i]? = some child := by
      cases hc : s.site.children[i]? with
      | some child => exact ⟨child, rfl⟩
      | none => simp [Site.isFinished, hc] at hrun
    have hn : s.site.isCancelled child = true := by simp [Site.isCancelled, hh]
    rw [Site.isFinished_of_getElem? hc] at hup
    obtain ⟨next, hstep, -⟩ := h.stepChild_ends hc hn hup
    rw [hrest (.child i)] at hstep
    cases hstep
  have hover : s.desks.all Desk.isOver = true := by
    apply List.all_eq_true.mpr
    intro desk hd
    obtain ⟨i, hi⟩ := List.mem_iff_getElem?.mp hd
    rcases Desk.closing_of_rest (hrest.desk_waits hi) hh with hover | ⟨closing, -, hwaits⟩
    · exact hover
    · obtain ⟨j, hrun⟩ := Closing.running_of_wait hwaits
      rw [hended j] at hrun
      cases hrun
  have hlead : s.stepLead = none := hrest .lead
  cases hl : s.lead with
  | absent => exact absurd hl h.not_absent
  | fresh => exact absurd (.inl hl) hu
  | opening call deadline => exact absurd (.inr ⟨call, deadline, hl⟩) hu
  | leading feed streaming tick => simp [stepLead, hl, stepLeading, hh] at hlead
  | joining => simp [stepLead, hl, stepJoining, hover] at hlead
  | ended verdict => exact .inl ⟨verdict, rfl⟩
  | broken message => exact .inr ⟨message, rfl⟩

/-- In whatever order the tasks take their steps, they take no more of them than there are to do,
and when none can take one the supervision is over. -/
theorem Reached.returns {tasks : List Task} (h : s.Reached w) (hh : s.site.halted = true)
    (hu : ¬s.IsUnopened) (hp : s.play tasks = some later) :
    tasks.length + later.toDo ≤ s.toDo ∧ (later.IsAtRest →
      (∃ verdict, later.lead = .ended verdict) ∨ ∃ message, later.lead = .broken message) := by
  induction tasks generalizing s with
  | nil =>
    obtain rfl := Option.some.inj hp
    exact ⟨by simp, h.over_of_rest hh hu⟩
  | cons t rest ih =>
    obtain ⟨mid, hstep, hrest⟩ := Option.bind_eq_some_iff.mp hp
    have hm : s.Moves w mid := .task t mid hstep
    have hlt := h.toDo_lt hh hu hstep
    obtain ⟨hle, hover⟩ := ih (.next s mid h hm) ((h.onward hm).halted hh)
      (fun hn => hu (hm.unopened hn)) hrest
    refine ⟨?_, hover⟩
    simp only [List.length_cons]
    omega

end Supervision

end AddonWatch

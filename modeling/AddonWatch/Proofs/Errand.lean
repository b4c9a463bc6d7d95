import AddonWatch.Proofs.Deadlines
import AddonWatch.Proofs.Marks
import AddonWatch.Proofs.Silence

namespace AddonWatch

/-- How long the act takes to answer a call, and how it does; one that hangs never does. -/
def Act.answer? : Act → Option (Nat × Reply)
  | grant => some (0, .granted)
  | refuse refusal => some (0, .refused refusal)
  | hang => none
  | crash => some (0, .crashed)
  | delay ms next => next.answer?.map fun answer => (ms + answer.1, answer.2)

/-- How often the act puts the answer off. -/
def Act.delays : Act → Nat
  | delay _ next => next.delays + 1
  | _ => 0

namespace Call

/-- The moment at which the call is answered, and how. -/
def answer? (call : Call) : Option (Nat × Reply) :=
  call.act.answer?.map fun answer => (call.due + answer.1, answer.2)

/-- Nothing that the call waited for has gone by unseen. -/
def IsPrompt (call : Call) (now : Nat) : Prop :=
  now ≤ call.due ∨ call.act = .hang

variable {call call' : Call} {now : Nat} {reply : Reply}

theorem answer?_delay (due ms : Nat) (next : Act) :
    (⟨due, .delay ms next⟩ : Call).answer? = (⟨due + ms, next⟩ : Call).answer? := by
  cases h : next.answer? with
  | none => simp [answer?, Act.answer?, h]
  | some answer => simp [answer?, Act.answer?, h, Nat.add_assoc]

/-- A reply comes at the moment of the answer. -/
theorem answer?_of_reply (hp : call.IsPrompt now) (h : call.advance now = .inr reply) :
    call.answer? = some (now, reply) := by
  obtain ⟨due, act⟩ := call
  induction act generalizing due with
  | delay ms next ih =>
    simp only [advance, Act.advance] at h
    split at h
    next => cases h
    next hdue =>
      have hle : now ≤ due := hp.resolve_right (by simp)
      obtain rfl : due = now := by omega
      rw [answer?_delay]
      exact ih (due + ms) (.inl (Nat.le_add_right _ _)) h
  | hang =>
    simp only [advance, Act.advance] at h
    split at h <;> cases h
  | _ =>
    simp only [advance, Act.advance] at h
    split at h
    next => cases h
    next hdue =>
      have hle : now ≤ due := hp.resolve_right (by simp)
      obtain rfl : due = now := by omega
      cases h
      rfl

/-- A call that goes on waiting is still answered at the same moment, which is to come; it is the
call that it was, or less of it is left. -/
theorem answer?_of_wait (hp : call.IsPrompt now) (h : call.advance now = .inl call') :
    call'.answer? = call.answer? ∧ (now < call'.due ∨ call'.act = .hang) ∧
      (call' = call ∨ call'.act.delays < call.act.delays) := by
  obtain ⟨due, act⟩ := call
  induction act generalizing due with
  | delay ms next ih =>
    simp only [advance, Act.advance] at h
    split at h
    next hdue =>
      cases h
      exact ⟨rfl, .inl hdue, .inl rfl⟩
    next hdue =>
      have hle : now ≤ due := hp.resolve_right (by simp)
      obtain rfl : due = now := by omega
      obtain ⟨hsame, hahead, hless⟩ := ih (due + ms) (.inl (Nat.le_add_right _ _)) h
      refine ⟨hsame.trans (answer?_delay due ms next).symm, hahead, .inr ?_⟩
      rcases hless with rfl | hless
      · exact Nat.lt_succ_self _
      · exact Nat.lt_succ_of_lt hless
  | hang =>
    simp only [advance, Act.advance] at h
    split at h <;> cases h <;> exact ⟨rfl, .inr rfl, .inl rfl⟩
  | _ =>
    simp only [advance, Act.advance] at h
    split at h
    next hdue =>
      cases h
      exact ⟨rfl, .inl hdue, .inl rfl⟩
    next => cases h

/-- A call that still waits is answered later. -/
theorem lt_of_answer? {answer : Nat × Reply} (h : now < call.due ∨ call.act = .hang)
    (ha : call.answer? = some answer) : now < answer.1 := by
  obtain ⟨due, act⟩ := call
  obtain ⟨rest, hact, rfl⟩ := Option.map_eq_some_iff.mp ha
  rcases h with hdue | rfl
  · exact Nat.lt_of_lt_of_le hdue (Nat.le_add_right _ _)
  · cases hact

end Call

theorem Hub.Sheds.length {old new : Hub} (h : old.Sheds new) :
    new.feeds.length = old.feeds.length := by
  obtain ⟨_, hnew⟩ := h.feeds old.feeds.length
  obtain ⟨_, hold⟩ := h.feeds new.feeds.length
  have hle : new.feeds.length ≤ old.feeds.length := by simpa using hnew
  have hge : old.feeds.length ≤ new.feeds.length := by simpa using hold.symm
  omega

def Mark.told? : Mark → Option (Notice × AddonKey)
  | .noted notice key _ _ => some (notice, key)
  | _ => none

def Mark.asked? : Mark → Option Target
  | .opened target _ => some target
  | _ => none

/-- What is done from one site to the next: the notices, the objects asked for, each with how the
hub deals with that, the tasks spawned and the streams opened. -/
structure Effects where
  told : List (Notice × AddonKey) := []
  asked : List (Target × Act) := []
  tasks : Nat := 0
  streams : Nat := 0

namespace Effects

def between (old new : Site) : Effects :=
  let marks := new.trace.take (new.trace.length - old.trace.length)
  { told := marks.filterMap Mark.told?
    asked := (marks.filterMap Mark.asked?).map fun target => (target, old.hub.opens.take.1)
    tasks := new.children.length - old.children.length
    streams := new.hub.feeds.length - old.hub.feeds.length }

def add (later earlier : Effects) : Effects where
  told := later.told ++ earlier.told
  asked := later.asked ++ earlier.asked
  tasks := later.tasks + earlier.tasks
  streams := later.streams + earlier.streams

theorem zero_add (effects : Effects) : ({} : Effects).add effects = effects := by
  simp [add]

theorem add_zero (effects : Effects) : effects.add {} = effects := by
  simp [add]

theorem between_of_marks {old new : Site} (marks : List Mark) {tasks streams : Nat}
    (ht : new.trace = marks ++ old.trace)
    (hc : new.children.length = old.children.length + tasks)
    (hf : new.hub.feeds.length = old.hub.feeds.length + streams) :
    between old new = ⟨marks.filterMap Mark.told?, (marks.filterMap Mark.asked?).map fun target =>
      (target, old.hub.opens.take.1), tasks, streams⟩ := by
  have hmarks : new.trace.take (new.trace.length - old.trace.length) = marks := by
    simp [ht]
  simp only [between, hmarks, hc, hf, Nat.add_sub_cancel_left]

theorem between_self (site : Site) : between site site = {} :=
  between_of_marks [] rfl rfl rfl

/-- To let go of a child neither spawns a task nor opens a stream. -/
theorem between_of_windsDown {old new : Site} (marks : List Mark) (h : old.WindsDown new)
    (ht : new.trace = marks ++ old.trace) :
    between old new = ⟨marks.filterMap Mark.told?, (marks.filterMap Mark.asked?).map fun target =>
      (target, old.hub.opens.take.1), 0, 0⟩ :=
  between_of_marks marks ht h.ages.length h.hub.length

/-- Remarks tell nothing and ask for nothing. -/
theorem filterMap_remarks {marks : List Mark}
    (h : ∀ mark ∈ marks, (∃ level text, mark = .logged level text) ∨ False) :
    marks.filterMap Mark.told? = [] ∧ marks.filterMap Mark.asked? = [] := by
  constructor <;> refine List.filterMap_eq_nil_iff.mpr fun mark hm => ?_
  all_goals
    obtain ⟨level, text, rfl⟩ := (h mark hm).resolve_right id
    rfl

theorem between_of_remarks {old new : Site} (h : old.WindsDown new)
    (hl : old.Leaves (fun _ => False) new) : between old new = {} := by
  obtain ⟨marks, ht, hmarks⟩ := hl
  obtain ⟨htold, hasked⟩ := filterMap_remarks hmarks
  rw [between_of_windsDown marks h ht, htold, hasked]
  rfl

end Effects

/-- What others may do meanwhile: no child is lost or revived, the settings stay, the scope stands,
and time does not go back. -/
structure Site.Unfolds (old new : Site) : Prop where
  grows : old.Grows new
  halted : new.halted = false
  now : old.now ≤ new.now

namespace Site.Unfolds

variable {a b c : Site} {i : Nat}

theorem of_ages (h : a.Ages b) (hh : b.halted = false) (hnow : b.now = a.now) : a.Unfolds b :=
  ⟨h.grows, hh, Nat.le_of_eq hnow.symm⟩

protected theorem refl {site : Site} (h : site.halted = false) : site.Unfolds site :=
  .of_ages (.refl site) h rfl

protected theorem trans (hab : a.Unfolds b) (hbc : b.Unfolds c) : a.Unfolds c :=
  ⟨hab.grows.trans hbc.grows, hbc.halted, Nat.le_trans hab.now hbc.now⟩

theorem isFinished (h : a.Unfolds b) (hi : i < a.children.length) (hd : a.isFinished i = true) :
    b.isFinished i = true :=
  h.grows.finished hi hd

end Site.Unfolds

/-- Only when its time is over is a child that runs on stopped for good. -/
theorem Settling.late {s : Settling} {site next : Site} {inTime : Bool}
    (h : s.step site = some (next, inTime)) (hr : site.isFinished s.handle.child = false) :
    s.deadline ≤ site.now := by
  unfold Settling.step at h
  dsimp only at h
  cases hc : site.children[s.handle.child]? with
  | none => simp [Site.isFinished, hc] at hr
  | some child =>
    have hrun : child.condition = .running := by
      simpa [Site.isFinished, hc, Child.isFinished] using hr
    simp only [hc, hrun, Option.map_some] at h
    split at h
    next hdue => exact hdue
    next => cases h

theorem Opening.advance_of_wait {o : Opening} {site : Site} (h : o.step site = none) :
    o.call.advance site.now = .inl o.call := by
  unfold Opening.step at h
  split at h
  · cases h
  · cases h
  · cases h
  next call hcall =>
    split at h
    · cases h
    · split at h
      next hstill => rw [hcall, hstill]
      next => cases h

/-- One call of a reconciliation: what it shares with others, its registry, where it has come to,
and the sites before and behind each of its own polls, the latest first. -/
structure Errand where
  site : Site
  roster : Roster
  state : Reconciling ⊕ Verdict
  polls : List (Site × Site)

namespace Errand

/-- The first poll, which reads the text. -/
def call (text : String) (roster : Roster) (site : Site) : Errand :=
  let (next, roster, state) := Reconciling.start text roster site
  ⟨next, roster, state, [(site, next)]⟩

/-- The next poll, at what the site has become meanwhile. -/
def poll (e : Errand) (work : Reconciling) (site : Site) : Errand :=
  match work.step e.roster site with
  | some (next, roster, state) => ⟨next, roster, state, (site, next) :: e.polls⟩
  | none => { e with site := site }

/-- What the call itself has done so far. -/
def effects (e : Errand) : Effects :=
  e.polls.foldr (fun poll earlier => (Effects.between poll.1 poll.2).add earlier) {}

/-- What the site has become when the call is polled again: time has gone by only if the call had to
wait, and not past a timer that it waits for; and it can go on unless time has gone by. -/
structure Meanwhile (e : Errand) (work : Reconciling) (site : Site) : Prop where
  unfolds : e.site.Unfolds site
  clock : work.step e.roster e.site ≠ none → site.now = e.site.now
  timers : ∀ timer ∈ work.timers, e.site.now < timer → site.now ≤ timer
  goesOn : work.step e.roster site = none → e.site.now < site.now

/-- Whatever others do between its polls, the call ends, and then that holds. As long as it has to
wait, there is a timer ahead that it waits for. -/
inductive Ends (p : Errand → Prop) : Errand → Prop
  | ended (e : Errand) (verdict : Verdict) (h : e.state = .inr verdict) (hp : p e) : Ends p e
  | waits (e : Errand) (work : Reconciling) (h : e.state = .inl work)
      (hahead : work.step e.roster e.site = none → ∃ timer ∈ work.timers, e.site.now < timer)
      (hgo : ∀ site, e.Meanwhile work site → Ends p (e.poll work site)) : Ends p e

variable {p : Errand → Prop} {e : Errand} {work : Reconciling} {site next : Site}

theorem Ends.mono {q : Errand → Prop} (h : e.Ends p) (hpq : ∀ e, p e → q e) : e.Ends q := by
  induction h with
  | ended e verdict hstate hp => exact .ended e verdict hstate (hpq e hp)
  | waits e work hstate hahead _ ih => exact .waits e work hstate hahead ih

theorem halted_poll (hh : site.halted = false) : (e.poll work site).site.halted = false := by
  unfold poll
  split
  next next roster state hstep => exact (Reconciling.step_moves hstep).halted.trans hh
  next => exact hh

/-- A call that ends, whatever others do, does end: they can always leave it alone. -/
theorem Ends.reaches (h : e.Ends p) (hh : e.site.halted = false) :
    ∃ e' verdict, e'.state = .inr verdict ∧ p e' := by
  induction h with
  | ended e verdict hstate hp => exact ⟨e, verdict, hstate, hp⟩
  | waits e work hstate _ _ ih =>
    by_cases hwaits : work.step e.roster e.site = none
    · have hlater : e.Meanwhile work { e.site with now := e.site.now + 1 } :=
        ⟨⟨.time _ _, hh, Nat.le_succ _⟩, fun hgo => absurd hwaits hgo, fun _ _ ht => ht,
          fun _ => Nat.lt_succ_self _⟩
      exact ih _ hlater (halted_poll hh)
    · have hnow : e.Meanwhile work e.site :=
        ⟨.refl hh, fun _ => rfl, fun _ _ ht => Nat.le_of_lt ht, fun hstuck => absurd hstuck hwaits⟩
      exact ih _ hnow (halted_poll hh)

/-- A call ends if each poll of it leads to its end, or leaves less to be done. -/
theorem Ends.of_variant (inv : Nat → Errand → Prop)
    (hinv : ∀ n e, inv n e → ∃ work, e.state = .inl work ∧
      (work.step e.roster e.site = none → ∃ timer ∈ work.timers, e.site.now < timer) ∧
      ∀ site, e.Meanwhile work site →
        (e.poll work site).Ends p ∨ ∃ left, left < n ∧ inv left (e.poll work site))
    {n : Nat} (h : inv n e) : e.Ends p := by
  induction n using Nat.strong_induction_on generalizing e with
  | _ n ih =>
    obtain ⟨work, hstate, hahead, hgo⟩ := hinv n e h
    refine .waits e work hstate hahead fun site hsite => ?_
    rcases hgo site hsite with hends | ⟨left, hleft, hnext⟩
    · exact hends
    · exact ih left hleft hnext

/-- What the call waits for until its deadline, at the latest, has not been passed. -/
theorem Meanwhile.now_le {deadline : Nat} (h : e.Meanwhile work site)
    (hmem : deadline ∈ work.timers) (hle : e.site.now ≤ deadline)
    (hlt : work.step e.roster e.site = none → e.site.now < deadline) : site.now ≤ deadline := by
  by_cases hwaits : work.step e.roster e.site = none
  · exact h.timers deadline hmem (hlt hwaits)
  · rw [h.clock hwaits]
    exact hle

/-- The moment at which the hub has something to say is not missed. -/
theorem Meanwhile.isPrompt {key : AddonKey} {attempt : Opening}
    (h : e.Meanwhile (.opening key attempt) site) (hp : attempt.call.IsPrompt e.site.now) :
    attempt.call.IsPrompt site.now := by
  by_cases hwaits : (Reconciling.opening key attempt).step e.roster e.site = none
  · have hcall := Opening.advance_of_wait (Option.map_eq_none_iff.mp hwaits)
    obtain ⟨-, hahead, -⟩ := Call.answer?_of_wait hp hcall
    refine hahead.imp_left fun hdue => h.timers _ ?_ hdue
    simp [Reconciling.timers, Opening.timers, Call.timers]
  · rw [h.clock hwaits]
    exact hp

/-- A call that waits for a child to end goes on at its deadline at the latest. -/
theorem ends_of_settling {settling : Settling} (after : Roster → Site → Reconciling.Outcome)
    (hstep : ∀ roster site, work.step roster site =
      (settling.step site).map fun result => after roster result.1)
    (htimers : work.timers = [settling.deadline]) (hstate : e.state = .inl work)
    (hh : e.site.halted = false) (hle : e.site.now ≤ settling.deadline)
    (hdone : ∀ site next inTime, e.site.Unfolds site → site.now ≤ settling.deadline →
      settling.step site = some (next, inTime) → Ends p ⟨(after e.roster next).1,
        (after e.roster next).2.1, (after e.roster next).2.2,
        (site, (after e.roster next).1) :: e.polls⟩) : e.Ends p := by
  have hmem : settling.deadline ∈ work.timers := by simp [htimers]
  have hlt : ∀ roster site, work.step roster site = none → site.now < settling.deadline := by
    intro roster site hwaits
    rw [hstep] at hwaits
    exact Settling.lt_deadline (Option.map_eq_none_iff.mp hwaits)
  refine Ends.of_variant (fun n e' => ∃ site, e' = { e with site := site } ∧
    e.site.Unfolds site ∧ site.now ≤ settling.deadline ∧ n = settling.deadline - site.now) ?_
    ⟨e.site, rfl, .refl hh, hle, rfl⟩
  rintro n e' ⟨before, rfl, hunfolds, hbefore, rfl⟩
  refine ⟨work, hstate, fun hwaits => ⟨_, hmem, hlt _ _ hwaits⟩, fun site hsite => ?_⟩
  have hnow := hsite.now_le hmem hbefore (hlt _ _)
  have hsince := hunfolds.trans hsite.unfolds
  unfold poll
  cases hs : settling.step site with
  | some result =>
    obtain ⟨next, inTime⟩ := result
    rw [hstep, hs]
    exact .inl (hdone site next inTime hsince hnow hs)
  | none =>
    have hwaits : work.step e.roster site = none := by rw [hstep, hs]; rfl
    have hpassed : before.now < site.now := hsite.goesOn hwaits
    have hahead := hlt _ _ hwaits
    dsimp only
    rw [hwaits]
    exact .inr ⟨_, by omega, site, rfl, hsince, hnow, rfl⟩

theorem effects_cons (next : Site) (roster : Roster) (state : Reconciling ⊕ Verdict)
    (poll : Site × Site) : (⟨next, roster, state, poll :: e.polls⟩ : Errand).effects =
      (Effects.between poll.1 poll.2).add e.effects :=
  rfl

/-- The call has told the former watcher to stop, and that has ended. The call has not stopped it
for good before the deadline, and has not asked for another object before it had ended. -/
structure PartsWith (e : Errand) (former : Handle) (deadline : Nat) : Prop where
  told : ∃ poll ∈ e.polls, ∃ child, poll.2.children[former.child]? = some child ∧
    child.fired = true
  patient : ∀ poll ∈ e.polls, poll.1.isFinished former.child = false →
    poll.2.isFinished former.child = true → deadline ≤ poll.1.now
  orderly : ∀ poll ∈ e.polls, (Effects.between poll.1 poll.2).asked ≠ [] →
    poll.2.isFinished former.child = true
  finished : e.site.isFinished former.child = true

end Errand

end AddonWatch

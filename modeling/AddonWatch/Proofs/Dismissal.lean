import AddonWatch.Proofs.Endings

namespace AddonWatch

/-- How it comes out to tell a child to stop and to wait for it: when the wait is over, whether the
child has ended by then, and what has become of it. -/
structure Dismissal where
  time : Nat
  inTime : Bool
  condition : Condition
deriving DecidableEq

/-- What is remarked on when the wait is over. -/
def Dismissal.remarks (d : Dismissal) (handle : Handle) (grace : Span) : List Mark :=
  if d.inTime then
    if d.condition = .crashed then
      [.logged .error ("Config watcher for " ++ handle.fingerprint.text ++ " panicked")]
    else []
  else [.logged .warn ("Config watcher for " ++ handle.fingerprint.text ++
    " did not stop within " ++ grace.text ++ ", aborting")]

namespace Child

/-- How it may come out to tell a child to stop at `start`. A child that has ended counts as ended,
and so does one that ends in time, if there is any; any other is stopped for good. Where the end and
the deadline are the same moment, both may be. -/
inductive DismissedAs (child : Child) (start : Nat) (grace : Span) : Dismissal → Prop
  | ended (time : Nat) (condition : Condition) (h : child.ending? start = some (time, condition))
      (hle : time ≤ start + grace.millis) (hearly : child.isFinished = true ∨ 0 < grace.millis) :
      DismissedAs child start grace ⟨time, true, condition⟩
  | aborted (hrun : child.isFinished = false)
      (hlate : ∀ time condition, child.ending? start = some (time, condition) →
        start + grace.millis ≤ time) :
      DismissedAs child start grace ⟨start + grace.millis, false, .aborted⟩

/-- The child runs, and the moment of its end is the one at which its time is over. -/
def IsTied (child : Child) (start : Nat) (grace : Span) : Prop :=
  0 < grace.millis ∧ child.isFinished = false ∧
    ∃ condition, child.ending? start = some (start + grace.millis, condition)

/-- How it comes out for a child that does not end at the very deadline. -/
def dismissal (child : Child) (start : Nat) (grace : Span) : Dismissal :=
  match child.ending? start with
  | some (time, condition) =>
    if child.isFinished ∨ time < start + grace.millis then ⟨time, true, condition⟩
    else ⟨start + grace.millis, false, .aborted⟩
  | none => ⟨start + grace.millis, false, .aborted⟩

variable {child : Child} {start : Nat} {grace : Span} {d : Dismissal}

theorem DismissedAs.eq_dismissal (h : child.DismissedAs start grace d)
    (htie : ¬child.IsTied start grace) : d = child.dismissal start grace := by
  cases h with
  | ended time condition hending hle hearly =>
    have hearlier : child.isFinished = true ∨ time < start + grace.millis := by
      cases hf : child.isFinished with
      | true => exact .inl rfl
      | false =>
        have hpos : 0 < grace.millis := hearly.resolve_left (by simp [hf])
        have hne : time ≠ start + grace.millis := by
          rintro rfl
          exact htie ⟨hpos, hf, condition, hending⟩
        exact .inr (by omega)
    simp [dismissal, hending, hearlier]
  | aborted hrun hlate =>
    cases hending : child.ending? start with
    | none => simp [dismissal, hending]
    | some ending =>
      have hnot : ¬ending.1 < start + grace.millis := Nat.not_lt.mpr (hlate _ _ hending)
      simp [dismissal, hending, hrun, hnot]

/-- A child that runs and ends by itself does so in one of two ways. -/
theorem condition_of_ending? {now time : Nat} {condition : Condition}
    (hrun : child.isFinished = false) (h : child.ending? now = some (time, condition)) :
    condition = .returned ∨ condition = .crashed := by
  simp only [ending?, hrun, Bool.false_eq_true, if_false] at h
  split at h
  · obtain ⟨⟨_, ending⟩, -, hsame⟩ := Option.map_eq_some_iff.mp h
    cases hsame
    cases ending with
    | returns => exact .inl rfl
    | crashes => exact .inr rfl
  · cases h
    exact .inl rfl

namespace DismissedAs

/-- Nobody is said not to have ended in time but who ran and was then stopped for good. -/
theorem inTime_eq_false_iff (h : child.DismissedAs start grace d) :
    d.inTime = false ↔ child.isFinished = false ∧ d.condition = .aborted := by
  cases h with
  | ended time condition hending =>
    constructor
    · intro hlate
      cases hlate
    · rintro ⟨hrun, rfl⟩
      rcases condition_of_ending? hrun hending with hc | hc <;> cases hc
  | aborted hrun => simp [hrun]

theorem error_iff (h : child.DismissedAs start grace d) (handle : Handle) :
    (∃ text, .logged .error text ∈ d.remarks handle grace) ↔ d.condition = .crashed := by
  cases h with
  | ended time condition =>
    by_cases hc : condition = .crashed
    · simp [Dismissal.remarks, hc]
    · simp [Dismissal.remarks, hc]
  | aborted => simp [Dismissal.remarks]

theorem warn_iff (h : child.DismissedAs start grace d) (handle : Handle) :
    (∃ text, .logged .warn text ∈ d.remarks handle grace) ↔ d.inTime = false := by
  cases h with
  | ended time condition =>
    by_cases hc : condition = .crashed
    · simp [Dismissal.remarks, hc]
    · simp [Dismissal.remarks, hc]
  | aborted => simp [Dismissal.remarks]

end DismissedAs

end Child

namespace Settling

/-- The wait for a child as work of its own. -/
def work (s : Settling) (site : Site) : Option (Site × (Settling ⊕ Bool)) :=
  (s.step site).map fun (site, inTime) => (site, .inr inTime)

variable {s : Settling} {site next : Site} {child : Child} {inTime : Bool}

theorem step_of_running (hc : site.children[s.handle.child]? = some child)
    (hr : child.condition = .running) : s.step site =
      if s.deadline ≤ site.now then
        some ((site.log .warn ("Config watcher for " ++ s.handle.fingerprint.text ++
          " did not stop within " ++ s.grace.text ++ ", aborting")).abort
            s.handle.child, false)
      else none := by
  simp [step, hc, hr]

theorem step_of_finished (hc : site.children[s.handle.child]? = some child)
    (hf : child.isFinished = true) : s.step site =
      some (if child.condition = .crashed then
        site.log .error ("Config watcher for " ++ s.handle.fingerprint.text ++ " panicked")
      else site, true) := by
  cases hcondition : child.condition <;> simp_all [step, Child.isFinished]

/-- What is waited for runs, and its deadline is ahead. -/
theorem running_of_wait (h : s.step site = none) :
    site.isFinished s.handle.child = false ∧ site.now < s.deadline := by
  refine ⟨?_, Settling.lt_deadline h⟩
  unfold step at h
  dsimp only at h
  split at h
  next hr =>
    obtain ⟨child, hc, hup⟩ := Option.map_eq_some_iff.mp hr
    simp [Site.isFinished, hc, Child.isFinished, hup]
  next => cases h
  next => cases h

end Settling

namespace Site

variable {site : Site} {i : Nat} {child : Child}

theorem fire_fire (site : Site) (i : Nat) : (site.fire i).fire i = site.fire i := by
  simp only [fire, setChild]
  congr 1
  apply List.ext_getElem?
  intro j
  simp only [List.getElem?_modify]
  cases site.children[j]? with
  | none => rfl
  | some child =>
    by_cases hij : i = j
    · simp [hij]
    · simp [hij]

theorem getElem?_fire (hc : site.children[i]? = some child) :
    (site.fire i).children[i]? = some { child with fired := true } := by
  rw [fire, getElem?_setChild, if_pos rfl, hc]
  rfl

theorem getElem?_abort (hc : site.children[i]? = some child) (hr : child.condition = .running) :
    (site.abort i).children[i]? = some { child with condition := .aborted } := by
  have hup : child.isFinished = false := by simp [Child.isFinished, hr]
  simp only [abort, hc, hup, Bool.false_eq_true, if_false]
  exact getElem?_finish_self .aborted hc

theorem abort_spares (site : Site) (i : Nat) : site.Spares i (site.abort i) := by
  unfold abort
  split
  · split
    · exact .of_eq i site site.hub site.trace site.exits
    · exact .finish site i _
  · exact .of_eq i site site.hub site.trace site.exits

theorem trace_abort (site : Site) (i : Nat) : (site.abort i).trace = site.trace := by
  unfold abort
  split
  · split <;> rfl
  · rfl

theorem marksTo_of_append {old new : Site} {marks : List Mark}
    (h : new.trace = marks ++ old.trace) :
    old.marksTo new = marks := by
  simp [marksTo, h]

end Site

namespace Handle

/-- The child was told to stop at `start`, by whatever it was then, and is on its way to its end;
the time to wait for it is not over. -/
structure Bides (handle : Handle) (grace : Span) (start site : Site) : Prop where
  onItsWay : ∃ child c, start.children[handle.child]? = some child ∧
    site.children[handle.child]? = some c ∧ c.fired = true ∧
    c.ending? site.now = child.ending? start.now ∧
    (child.isFinished = true → c.isFinished = true) ∧
    (c.isFinished = true → child.isFinished = true ∨ 0 < grace.millis)
  since : start.now ≤ site.now
  within : site.now ≤ start.now + grace.millis

/-- How it may come out to tell the child to stop. -/
def DismissedAs (handle : Handle) (grace : Span) (start : Site) (d : Dismissal) : Prop :=
  ∃ child, start.children[handle.child]? = some child ∧ child.DismissedAs start.now grace d

/-- The child has come to its end, and the wait for it came out like that. -/
def IsDismissed (handle : Handle) (site : Site) (condition : Condition) : Prop :=
  ∃ c, site.children[handle.child]? = some c ∧ c.fired = true ∧ c.isFinished = true ∧
    c.condition = condition

variable {handle : Handle} {grace : Span} {start site next last : Site} {child : Child}

namespace Bides

theorem of_fired (hc : start.children[handle.child]? = some child)
    (hf : site.children[handle.child]? = some { child with fired := true })
    (hnow : site.now = start.now) : handle.Bides grace start site := by
  refine ⟨⟨child, _, hc, hf, rfl, ?_, id, .inl⟩, ?_, ?_⟩
  · rw [hnow]
    rfl
  · rw [hnow]
  · rw [hnow]
    exact Nat.le_add_right _ _

theorem of_same (h : handle.Bides grace start site)
    (hkept : next.children[handle.child]? = site.children[handle.child]?)
    (hnow : next.now = site.now) : handle.Bides grace start next := by
  obtain ⟨hchild, hsince, hwithin⟩ := h
  rw [← hkept, ← hnow] at hchild
  exact ⟨hchild, hnow ▸ hsince, hnow ▸ hwithin⟩

theorem stirs {cast : List Nat} (h : handle.Bides grace start site) (hi : handle.child ∈ cast)
    (hgrace : 0 < grace.millis) (hs : Relation.ReflTransGen (Site.Stirs cast) site next) :
    handle.Bides grace start next := by
  induction hs with
  | refl => exact h
  | tail _ hstir ih =>
    obtain ⟨⟨child, c, hchild, hc, hf, hsame, hover, -⟩, hsince, hwithin⟩ := ih
    obtain ⟨c', hc', hf', hsame', hgoes⟩ := hstir.told hi hc hf
    have hnow := hstir.now
    refine ⟨⟨child, c', hchild, hc', hf', ?_, fun hdone => ?_, fun _ => .inr hgrace⟩, by omega,
      by omega⟩
    · rw [hnow, hsame', hsame]
    · rcases hgoes with rfl | hrun
      · exact hover hdone
      · rw [hover hdone] at hrun
        cases hrun

/-- Time goes by only while the child runs, and neither past its end nor past the deadline. -/
theorem passes {moment : Nat} (h : handle.Bides grace start site)
    (hwaits : (⟨handle, grace, start.now + grace.millis⟩ : Settling).step site = none)
    (hrest : site.stepChild handle.child = none) (hpass : site.now < moment)
    (hdeadline : moment ≤ start.now + grace.millis)
    (htimers : ∀ timer ∈ site.childTimers, site.now < timer → moment ≤ timer) :
    handle.Bides grace start { site with now := moment } := by
  obtain ⟨⟨child, c, hchild, hc, hf, hsame, hover, -⟩, hsince, -⟩ := h
  obtain ⟨hrun, -⟩ := Settling.running_of_wait hwaits
  rw [Site.isFinished_of_getElem? hc] at hrun
  have hkept := Site.ending?_of_rest hc hf hrun hrest htimers
  refine ⟨⟨child, c, hchild, hc, hf, hkept.trans hsame, hover, ?_⟩, ?_, hdeadline⟩
  · intro hdone
    rw [hrun] at hdone
    cases hdone
  · exact Nat.le_trans hsince (Nat.le_of_lt hpass)

/-- While the child is waited for, it stays on its way, and the deadline is not passed. -/
theorem resumes {κ ρ : Type} {work : κ → Site → Option (Site × (κ ⊕ ρ))} {timers : κ → List Nat}
    {cast : List Nat} {k : κ} (h : handle.Bides grace start site) (hi : handle.child ∈ cast)
    (hk : ∀ mid, work k mid = none →
      (⟨handle, grace, start.now + grace.millis⟩ : Settling).step mid = none)
    (hdeadline : start.now + grace.millis ∈ timers k) (hwaits : work k site = none)
    (hr : Site.Resumes cast work timers k site last) : handle.Bides grace start last := by
  have hahead : site.now < start.now + grace.millis := (Settling.running_of_wait (hk site hwaits)).2
  have hsince := h.since
  have hgrace : 0 < grace.millis := by omega
  cases hr with
  | woken _ hstirs => exact h.stirs hi hgrace hstirs
  | later mid moment _ hstirs hmid hrest hpass htimers hafter =>
    have hstill := hk mid hmid
    have hbefore : mid.now < start.now + grace.millis := (Settling.running_of_wait hstill).2
    have hpassed := (h.stirs hi hgrace hstirs).passes hstill (hrest _ hi) hpass
      (htimers _ (List.mem_append_left _ hdeadline) hbefore)
      fun timer ht => htimers timer (List.mem_append_right _ ht)
    exact hpassed.stirs hi hgrace hafter

/-- What the wait comes to, when it is over. -/
theorem settles {inTime : Bool} (h : handle.Bides grace start site)
    (hstep : (⟨handle, grace, start.now + grace.millis⟩ : Settling).step site =
      some (next, inTime)) :
    ∃ condition, handle.DismissedAs grace start ⟨site.now, inTime, condition⟩ ∧
      handle.IsDismissed next condition ∧ site.Spares handle.child next ∧
      next.trace = (⟨site.now, inTime, condition⟩ : Dismissal).remarks handle grace ++
        site.trace := by
  obtain ⟨⟨child, c, hchild, hc, hf, hsame, hover, hearly⟩, hsince, hwithin⟩ := h
  cases hr : c.isFinished with
  | false =>
    have hup : c.condition = .running := by simpa [Child.isFinished] using hr
    rw [Settling.step_of_running hc hup] at hstep
    split at hstep
    next hdue =>
      cases hstep
      have hnow : site.now = start.now + grace.millis := Nat.le_antisymm hwithin hdue
      have hrun : child.isFinished = false := by
        by_contra hdone
        rw [hover (eq_true_of_ne_false hdone)] at hr
        cases hr
      refine ⟨.aborted, ⟨child, hchild, ?_⟩, ⟨_, Site.getElem?_abort hc hup, hf, rfl, rfl⟩, ?_, ?_⟩
      · rw [hnow]
        refine .aborted hrun fun time condition hending => ?_
        rw [← hnow]
        exact Child.le_of_ending? (hsame.trans hending)
      · exact (Site.Spares.of_eq _ site _ _ _).trans (Site.abort_spares _ _)
      · rw [Site.trace_abort]
        rfl
    next => cases hstep
  | true =>
    rw [Settling.step_of_finished hc hr] at hstep
    obtain ⟨rfl, rfl⟩ := Prod.mk.inj (Option.some.inj hstep)
    have hending : child.ending? start.now = some (site.now, c.condition) := by
      rw [← hsame]
      exact Child.ending?_of_isFinished hr
    refine ⟨c.condition, ⟨child, hchild, .ended _ _ hending hwithin (hearly hr)⟩, ?_⟩
    by_cases hcrash : c.condition = .crashed
    · rw [if_pos hcrash]
      refine ⟨⟨c, hc, hf, hr, rfl⟩, .of_eq _ site _ _ _, ?_⟩
      simp [Dismissal.remarks, hcrash, Site.log, Site.mark]
    · rw [if_neg hcrash]
      refine ⟨⟨c, hc, hf, hr, rfl⟩, .of_eq _ site site.hub site.trace site.exits, ?_⟩
      simp [Dismissal.remarks, hcrash]

end Bides

/-- Whatever others do, a child that was told to stop is waited for no longer than it may be, and
has then come to its end. -/
theorem awaits (grace : Span) (hc : site.children[handle.child]? = some child) :
    Site.Awaits [handle.child] Settling.work Settling.timers
      (fun told next inTime => ∃ condition,
        handle.DismissedAs grace site ⟨next.now, inTime, condition⟩ ∧
        handle.IsDismissed next condition ∧
        told = (⟨next.now, inTime, condition⟩ : Dismissal).remarks handle grace)
      [] (handle.cancel grace site).2 (handle.cancel grace site).1 := by
  have hwork : ∀ (s : Settling) (mid : Site), s.work mid = none → s.step mid = none := by
    intro s mid hwaits
    exact Option.map_eq_none_iff.mp hwaits
  refine Site.Awaits.of_invariant
    (fun told s mid => told = [] ∧ s = ⟨handle, grace, site.now + grace.millis⟩ ∧
      handle.Bides grace site mid) (fun _ => 0) (site.now + grace.millis) ?_ ?_ ?_
    ⟨rfl, rfl, .of_fired hc (Site.getElem?_fire hc) rfl⟩
  · rintro told s mid next inTime ⟨rfl, rfl, hbides⟩ hstep
    obtain ⟨⟨after, result⟩, hstep, hsame⟩ := Option.map_eq_some_iff.mp hstep
    cases hsame
    obtain ⟨condition, has, hover, hspares, htold⟩ := hbides.settles hstep
    refine ⟨condition, ?_, hover, ?_⟩
    · rw [hspares.now]
      exact has
    · rw [hspares.now, Site.marksTo_of_append htold, List.append_nil]
  · rintro told s s' mid next - hstep
    obtain ⟨⟨after, result⟩, -, hsame⟩ := Option.map_eq_some_iff.mp hstep
    cases hsame
  · rintro told s mid ⟨rfl, rfl, hbides⟩ hwaits
    have hlt := (Settling.running_of_wait (hwork _ _ hwaits)).2
    refine ⟨?_, hlt, fun last hlast => ⟨rfl, rfl, ?_⟩⟩
    · intro i hi
      obtain rfl := List.mem_singleton.mp hi
      obtain ⟨⟨-, c, -, hc, hf, -⟩, -⟩ := hbides
      exact ⟨c, hc, hf⟩
    · exact hbides.resumes (List.mem_singleton_self _) (hwork _) (List.mem_singleton_self _) hwaits
        hlast

theorem cancel_iterate_fire (handle : Handle) (grace : Span) (pulls : Nat) (site : Site) :
    handle.cancel grace (Nat.iterate (fun s : Site => s.fire handle.child) pulls site) =
      handle.cancel grace site := by
  induction pulls generalizing site with
  | zero => rfl
  | succ pulls ih =>
    rw [Function.iterate_succ_apply, ih]
    unfold cancel
    rw [Site.fire_fire]
    rfl

/-- To cancel a child settles it, whatever it runs and whatever others do meanwhile. Its trigger has
fired before any time goes by, and how often it was pulled before does not matter. A child that has
ended, or that ends before its time is over, counts as ended in time, as soon as it has; any other
is stopped for good when its time is over. Either way it takes no step any more, an error is
remarked on exactly if it crashed, and a warning exactly if it was stopped for good. -/
theorem cancel_settles (grace : Span) (hc : site.children[handle.child]? = some child)
    (htie : ¬child.IsTied site.now grace) :
    (handle.cancel grace site).1.now = site.now ∧
    (handle.cancel grace site).1.children[handle.child]? = some { child with fired := true } ∧
    (∀ pulls, handle.cancel grace (Nat.iterate (fun s : Site => s.fire handle.child) pulls site) =
      handle.cancel grace site) ∧
    Site.Awaits [handle.child] Settling.work Settling.timers
      (fun told next inTime => ∃ last, next.children[handle.child]? = some last ∧
        last.isFinished = true ∧
        (⟨next.now, inTime, last.condition⟩ : Dismissal) = child.dismissal site.now grace ∧
        told = (child.dismissal site.now grace).remarks handle grace ∧
        ((∃ text, .logged .error text ∈ told) ↔ last.condition = .crashed) ∧
        ((∃ text, .logged .warn text ∈ told) ↔
          child.isFinished = false ∧ last.condition = .aborted) ∧
        ∀ later, next.Grows later → later.stepChild handle.child = none)
      [] (handle.cancel grace site).2 (handle.cancel grace site).1 := by
  refine ⟨rfl, Site.getElem?_fire hc, fun pulls => cancel_iterate_fire handle grace pulls site,
    (awaits grace hc).mono ?_⟩
  rintro told next inTime ⟨condition, ⟨other, hother, has⟩, ⟨last, hlast, -, hdone, rfl⟩, htold⟩
  obtain rfl : other = child := Option.some.inj (hother.symm.trans hc)
  have hcomes := has.eq_dismissal htie
  refine ⟨last, hlast, hdone, hcomes, ?_, ?_, ?_, ?_⟩
  · rw [htold, hcomes]
  · rw [htold]
    exact has.error_iff handle
  · rw [htold]
    exact (has.warn_iff handle).trans has.inTime_eq_false_iff
  · intro later hlater
    have hlt : handle.child < next.children.length := (List.getElem?_eq_some_iff.mp hlast).1
    have hover : next.isFinished handle.child = true := by
      rw [Site.isFinished_of_getElem? hlast]
      exact hdone
    exact Site.stepChild_of_isFinished (hlater.finished hlt hover)

/-- A child that crashes some time after it is told to stop is waited for that long, and one that
does not listen is stopped for good when its time is over, at once if it has none. -/
theorem cancel_settles_apart :
    (∃ (told : List Mark) (next : Site) (last : Child), next.now = 300 ∧
      next.children[0]? = some last ∧ last.condition = .crashed ∧
      ∃ text, .logged .error text ∈ told) ∧
    (∃ (told : List Mark) (next : Site) (last : Child), next.now = 0 ∧
      next.children[0]? = some last ∧ last.condition = .aborted ∧
      ∃ text, .logged .warn text ∈ told) := by
  let handle : Handle := ⟨⟨"t"⟩, 0⟩
  constructor
  · let site : Site := { children := [{ body := .timed { onCancel := some (300, .crashes) } }] }
    have hc : site.children[handle.child]? =
        some { body := .timed { onCancel := some (300, .crashes) } } := rfl
    obtain ⟨-, -, -, hawaits⟩ := cancel_settles (Span.ofSeconds 1) hc
      (by simp [Child.IsTied, Child.ending?, Timed.ending?, Child.isFinished, site, Span.millis,
        Span.ofSeconds])
    obtain ⟨told, next, inTime, last, hlast, -, hcomes, -, herror, -⟩ := hawaits.reaches
    have hcrashed : last.condition = .crashed := congrArg Dismissal.condition hcomes
    exact ⟨told, next, last, congrArg Dismissal.time hcomes, hlast, hcrashed, herror.mpr hcrashed⟩
  · let site : Site := { children := [{ body := .timed {} }] }
    have hc : site.children[handle.child]? = some { body := .timed {} } := rfl
    obtain ⟨-, -, -, hawaits⟩ := cancel_settles ⟨0⟩ hc (by simp [Child.IsTied, Span.millis])
    obtain ⟨told, next, inTime, last, hlast, -, hcomes, -, -, hwarn, -⟩ := hawaits.reaches
    have haborted : last.condition = .aborted := congrArg Dismissal.condition hcomes
    exact ⟨told, next, last, congrArg Dismissal.time hcomes, hlast, haborted,
      hwarn.mpr ⟨rfl, haborted⟩⟩

end Handle

end AddonWatch

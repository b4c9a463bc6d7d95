import AddonWatch.Proofs.Succession
import Mathlib.Algebra.Order.BigOperators.Group.List
import Mathlib.Logic.Relation

namespace AddonWatch

/-- What a task comes to that ends by itself. -/
def Ending.condition : Ending → Condition
  | .returns => .returned
  | .crashes => .crashed

namespace Timed

/-- When and how a timed task ends that is told to stop now: an end that is set for it stands,
unless its answer to the trigger comes before. -/
def ending? (t : Timed) (now : Nat) : Option (Nat × Ending) :=
  match t.endsAt, t.onCancel with
  | some (time, ending), some (ms, reaction) =>
    if time ≤ now + ms then some (max now time, ending) else some (now + ms, reaction)
  | some (time, ending), none => some (max now time, ending)
  | none, some (ms, reaction) => some (now + ms, reaction)
  | none, none => none

variable {t t' : Timed} {now moment : Nat}

theorem ending?_of_answer (h : t.step true now = some (.inl t')) :
    t'.ending? now = t.ending? now ∧ t.onCancel ≠ none ∧ t'.onCancel = none := by
  obtain ⟨endsAt, onCancel⟩ := t
  unfold step step.reaction at h
  cases onCancel with
  | none =>
    simp only at h
    split at h
    · split at h <;> cases h
    · cases h
  | some answer =>
    obtain ⟨ms, reaction⟩ := answer
    cases endsAt with
    | none =>
      cases h
      simp [ending?]
    | some own =>
      obtain ⟨time, ending⟩ := own
      simp only at h
      split at h
      · cases h
      next hahead =>
        split at h
        next hfirst =>
          cases h
          simp [ending?, hfirst]
        next hlater =>
          cases h
          simp [ending?, hlater]

theorem ending?_of_end {ending : Ending} (h : t.step true now = some (.inr ending)) :
    t.ending? now = some (now, ending) := by
  obtain ⟨endsAt, onCancel⟩ := t
  unfold step step.reaction at h
  cases endsAt with
  | none =>
    simp only at h
    split at h <;> cases h
  | some own =>
    obtain ⟨time, other⟩ := own
    simp only at h
    split at h
    next hdue =>
      cases h
      have hmax : max now time = now := Nat.max_eq_left hdue
      cases onCancel with
      | none => simp [ending?, hmax]
      | some answer =>
        have hfirst : time ≤ now + answer.1 := Nat.le_add_right_of_le hdue
        simp [ending?, hmax, hfirst]
    next =>
      split at h
      · split at h <;> cases h
      · cases h

/-- A task that was told to stop and waits ends when it would have ended, as long as time does not
go past its timer. -/
theorem ending?_of_rest (h : t.step true now = none)
    (ht : ∀ timer ∈ t.timers, now < timer → moment ≤ timer) : t.ending? moment = t.ending? now := by
  obtain ⟨endsAt, onCancel⟩ := t
  unfold step step.reaction at h
  cases onCancel with
  | some answer =>
    cases endsAt with
    | none => cases h
    | some own =>
      simp only at h
      split at h
      · cases h
      · split at h <;> cases h
  | none =>
    cases endsAt with
    | none => rfl
    | some own =>
      obtain ⟨time, ending⟩ := own
      simp only at h
      split at h
      · cases h
      next hahead =>
        have hlt : now < time := Nat.lt_of_not_le hahead
        have hmoment : moment ≤ time := ht time (by simp [timers]) hlt
        simp only [ending?]
        rw [Nat.max_eq_right hmoment, Nat.max_eq_right (Nat.le_of_lt hlt)]

theorem le_of_ending? {time : Nat} {ending : Ending} (h : t.ending? now = some (time, ending)) :
    now ≤ time := by
  unfold ending? at h
  split at h
  · split at h
    · cases h
      exact Nat.le_max_left _ _
    · cases h
      exact Nat.le_add_right _ _
  · cases h
    exact Nat.le_max_left _ _
  · cases h
    exact Nat.le_add_right _ _
  · cases h

end Timed

namespace Child

/-- When and in what condition a child ends that is told to stop now, if nobody stops it for good:
it may have ended, and a watcher ends at once. -/
def ending? (child : Child) (now : Nat) : Option (Nat × Condition) :=
  if child.isFinished then some (now, child.condition)
  else match child.body with
    | .timed timed => (timed.ending? now).map fun e => (e.1, e.2.condition)
    | _ => some (now, .returned)

/-- So many steps are left to a child that was told to stop, at the most. -/
def stepsLeft (child : Child) : Nat :=
  if child.isFinished then 0
  else match child.body with
    | .timed timed => if timed.onCancel = none then 1 else 2
    | _ => 1

variable {child : Child} {now : Nat}

theorem le_of_ending? {time : Nat} {condition : Condition}
    (h : child.ending? now = some (time, condition)) : now ≤ time := by
  unfold ending? at h
  split at h
  · cases h
    exact Nat.le_refl now
  · split at h
    · obtain ⟨⟨_, ending⟩, he, hsame⟩ := Option.map_eq_some_iff.mp h
      cases hsame
      exact Timed.le_of_ending? he
    · cases h
      exact Nat.le_refl now

theorem ending?_of_isFinished (h : child.isFinished = true) :
    child.ending? now = some (now, child.condition) := by
  simp [ending?, h]

end Child

namespace Site

variable {site next : Site} {i : Nat} {child : Child}

/-- A child that was told to stop comes by its own steps to the end that it was to come to, and it
takes no more than two. -/
theorem stepChild_told (hc : site.children[i]? = some child) (hf : child.fired = true)
    (h : site.stepChild i = some next) : ∃ child', next.children[i]? = some child' ∧
      child'.fired = true ∧ child'.ending? site.now = child.ending? site.now ∧
      child'.stepsLeft < child.stepsLeft := by
  have hn : site.isCancelled child = true := by simp [isCancelled, hf]
  have hrun : child.isFinished = false := by
    by_contra hdone
    simp [stepChild, hc, hdone] at h
  have hr : child.condition = .running := by simpa [Child.isFinished] using hrun
  have hends : ∀ condition, condition ≠ .running →
      child.ending? site.now = some (site.now, condition) → 0 < child.stepsLeft →
      ∃ child', (site.finish i condition).children[i]? = some child' ∧ child'.fired = true ∧
        child'.ending? site.now = child.ending? site.now ∧
        child'.stepsLeft < child.stepsLeft := by
    intro condition hover hending hleft
    refine ⟨_, getElem?_finish_self condition hc, hf, ?_, ?_⟩
    · rw [hending]
      exact Child.ending?_of_isFinished (by simp [Child.isFinished, hover])
    · simpa [Child.stepsLeft, Child.isFinished, hover] using hleft
  have hgo := h
  simp only [stepChild, hc, Option.bind_eq_bind, Option.bind_some, hrun, Bool.false_eq_true,
    if_false, hn] at hgo
  cases hb : child.body with
  | guarded f =>
    have hnext := Option.some.inj (h.symm.trans (stepChild_cancelled hc hb hr hn))
    have hsame : next.children = (site.finish i .returned).children := by rw [hnext]; rfl
    rw [hsame]
    exact hends .returned (by simp) (by simp [Child.ending?, hrun, hb])
      (by simp [Child.stepsLeft, hrun, hb])
  | bare f =>
    simp only [hb, Follower.step_cancelled, Option.map_some] at hgo
    cases hgo
    exact hends .returned (by simp) (by simp [Child.ending?, hrun, hb])
      (by simp [Child.stepsLeft, hrun, hb])
  | timed t =>
    simp only [hb] at hgo
    obtain ⟨result, hstep, rfl⟩ := Option.map_eq_some_iff.mp hgo
    cases result with
    | inl t' =>
      obtain ⟨hsame, hbefore, hafter⟩ := Timed.ending?_of_answer hstep
      refine ⟨{ child with body := .timed t' }, ?_, hf, ?_, ?_⟩
      · rw [getElem?_setChild, if_pos rfl, hc]
        rfl
      · have hup : ({ child with body := .timed t' } : Child).isFinished = false := hrun
        simp [Child.ending?, hrun, hup, hb, hsame]
      · have hup : ({ child with body := .timed t' } : Child).isFinished = false := hrun
        simp [Child.stepsLeft, hrun, hup, hb, hbefore, hafter]
    | inr ending =>
      have hend := Timed.ending?_of_end hstep
      have hleft : 0 < child.stepsLeft := by
        simp only [Child.stepsLeft, hrun, hb, Bool.false_eq_true, if_false]
        split <;> omega
      have hover : ending.condition ≠ .running := by cases ending <;> simp [Ending.condition]
      have hfinish : site.endBare i ending = site.finish i ending.condition := by
        cases ending <;> rfl
      dsimp only
      rw [hfinish]
      exact hends ending.condition hover (by simp [Child.ending?, hrun, hb, hend]) hleft

/-- A child that was told to stop and waits keeps its end, as long as time does not go past a timer
of its own. -/
theorem ending?_of_rest {moment : Nat} (hc : site.children[i]? = some child)
    (hf : child.fired = true) (hrun : child.isFinished = false) (h : site.stepChild i = none)
    (ht : ∀ timer ∈ site.childTimers, site.now < timer → moment ≤ timer) :
    child.ending? moment = child.ending? site.now := by
  have hn : site.isCancelled child = true := by simp [isCancelled, hf]
  simp only [stepChild, hc, Option.bind_eq_bind, Option.bind_some, hrun, Bool.false_eq_true,
    if_false, hn] at h
  cases hb : child.body with
  | guarded f => simp [hb, Follower.step_cancelled] at h
  | bare f => simp [hb, Follower.step_cancelled] at h
  | timed t =>
    simp only [hb] at h
    have hmem : ∀ timer ∈ t.timers, timer ∈ site.childTimers := by
      intro timer htimer
      refine List.mem_flatMap.mpr ⟨child, List.mem_of_getElem? hc, ?_⟩
      simpa [hrun, hb] using htimer
    have hsame := Timed.ending?_of_rest (Option.map_eq_none_iff.mp h)
      fun timer htimer => ht timer (hmem timer htimer)
    simp [Child.ending?, hrun, hb, hsame]

/-- What goes on while time stands still: one of these children takes its next step, or others do
what leaves them all as they are. -/
inductive Stirs (cast : List Nat) (site : Site) : Site → Prop
  | child (i : Nat) (next : Site) (hi : i ∈ cast) (h : site.stepChild i = some next) :
      Stirs cast site next
  | others (next : Site) (hnow : next.now = site.now)
      (hkeep : ∀ i ∈ cast, next.children[i]? = site.children[i]?) : Stirs cast site next

/-- These children have been told to stop. -/
def HasTold (site : Site) (cast : List Nat) : Prop :=
  ∀ i ∈ cast, ∃ child, site.children[i]? = some child ∧ child.fired = true

variable {cast : List Nat} {mid last : Site}

namespace Stirs

theorem now (h : site.Stirs cast next) : next.now = site.now := by
  cases h with
  | child i _ hi hstep => exact (stepChild_spares hstep).now
  | others _ hnow hkeep => exact hnow

/-- A child of these that was told to stop stays as it is, or goes on towards its end. -/
theorem told (h : site.Stirs cast next) (hi : i ∈ cast) (hc : site.children[i]? = some child)
    (hf : child.fired = true) : ∃ child', next.children[i]? = some child' ∧
      child'.fired = true ∧ child'.ending? site.now = child.ending? site.now ∧
      (child' = child ∨ child.isFinished = false) := by
  cases h with
  | child j _ hj hstep =>
    by_cases hij : i = j
    · subst hij
      obtain ⟨child', hc', hf', hsame, -⟩ := stepChild_told hc hf hstep
      have hrun : child.isFinished = false := by
        by_contra hdone
        simp [stepChild, hc, hdone] at hstep
      exact ⟨child', hc', hf', hsame, .inr hrun⟩
    · have hkept := (stepChild_spares hstep).children i hij
      exact ⟨child, hkept.trans hc, hf, rfl, .inl rfl⟩
  | others _ hnow hkeep => exact ⟨child, (hkeep i hi).trans hc, hf, rfl, .inl rfl⟩

end Stirs

theorem HasTold.stirs (h : site.HasTold cast) (hs : site.Stirs cast next) : next.HasTold cast := by
  intro i hi
  obtain ⟨child, hc, hf⟩ := h i hi
  obtain ⟨child', hc', hf', -⟩ := hs.told hi hc hf
  exact ⟨child', hc', hf'⟩

/-- Left to themselves, children that were told to stop come to wait. -/
theorem HasTold.exists_rest (h : site.HasTold cast) :
    ∃ mid, Relation.ReflTransGen (Stirs cast) site mid ∧ ∀ i ∈ cast, mid.stepChild i = none := by
  let left : Site → Nat → Nat := fun site i => (site.children[i]?.map Child.stepsLeft).getD 0
  generalize hn : (cast.map (left site)).sum = n
  induction n using Nat.strong_induction_on generalizing site with
  | _ n ih =>
    by_cases hrest : ∀ i ∈ cast, site.stepChild i = none
    · exact ⟨site, .refl, hrest⟩
    · obtain ⟨i, hi, hgo⟩ : ∃ i ∈ cast, site.stepChild i ≠ none := by simpa using hrest
      obtain ⟨next, hstep⟩ := Option.ne_none_iff_exists'.mp hgo
      have hstirs : site.Stirs cast next := .child i next hi hstep
      obtain ⟨child, hc, hf⟩ := h i hi
      obtain ⟨child', hc', -, -, hless⟩ := stepChild_told hc hf hstep
      have hsum : (cast.map (left next)).sum < n := by
        rw [← hn]
        refine List.sum_lt_sum _ _ (fun j hj => ?_) ⟨i, hi, by simpa [left, hc, hc'] using hless⟩
        by_cases hij : j = i
        · subst hij
          simpa [left, hc, hc'] using Nat.le_of_lt hless
        · simp [left, (stepChild_spares hstep).children j hij]
      obtain ⟨mid, hmid, hwaits⟩ := ih _ hsum (h.stirs hstirs) rfl
      exact ⟨mid, .head hstirs hmid, hwaits⟩

section Awaits

variable {κ ρ : Type} (cast : List Nat) (work : κ → Site → Option (Site × (κ ⊕ ρ)))
  (timers : κ → List Nat) (p : List Mark → Site → ρ → Prop)

/-- What the site may have become when work that waits is done again: either the others have made it
possible to go on, or time has gone by. Time goes by only while the work and these children all
wait, and not past the next timer. -/
inductive Resumes (k : κ) (site : Site) : Site → Prop
  | woken (last : Site) (hstirs : Relation.ReflTransGen (Stirs cast) site last)
      (hgo : work k last ≠ none) : Resumes k site last
  | later (mid : Site) (moment : Nat) (last : Site)
      (hstirs : Relation.ReflTransGen (Stirs cast) site mid) (hwaits : work k mid = none)
      (hrest : ∀ i ∈ cast, mid.stepChild i = none) (hpass : mid.now < moment)
      (htimers : ∀ timer ∈ timers k ++ mid.childTimers, mid.now < timer → moment ≤ timer)
      (hafter : Relation.ReflTransGen (Stirs cast) { mid with now := moment } last) :
      Resumes k site last

/-- What is remarked on from one site to the next, the latest first. -/
def marksTo (old new : Site) : List Mark :=
  new.trace.take (new.trace.length - old.trace.length)

/-- Whatever others do while it waits, the work comes to its end, and then that holds of what the
work itself has remarked on, of the site and of the result. -/
inductive Awaits : List Mark → κ → Site → Prop
  | ends (told : List Mark) (k : κ) (site next : Site) (result : ρ)
      (h : work k site = some (next, .inr result))
      (hp : p (site.marksTo next ++ told) next result) :
      Awaits told k site
  | goesOn (told : List Mark) (k k' : κ) (site next : Site)
      (h : work k site = some (next, .inl k'))
      (hnext : Awaits (site.marksTo next ++ told) k' next) : Awaits told k site
  | waits (told : List Mark) (k : κ) (site : Site) (h : work k site = none)
      (hlive : ∃ last, Resumes cast work timers k site last)
      (hgo : ∀ last, Resumes cast work timers k site last → Awaits told k last) :
      Awaits told k site

end Awaits

variable {κ ρ : Type} {work : κ → Site → Option (Site × (κ ⊕ ρ))} {timers : κ → List Nat}
  {p : List Mark → Site → ρ → Prop} {told : List Mark} {k : κ}

theorem now_of_stirs (h : Relation.ReflTransGen (Stirs cast) site last) : last.now = site.now := by
  induction h with
  | refl => rfl
  | tail _ hs ih => exact hs.now.trans ih

/-- Work that waits for children that were told to stop does not wait in vain. -/
theorem HasTold.exists_resumes (h : site.HasTold cast) :
    ∃ last, Resumes cast work timers k site last := by
  obtain ⟨mid, hmid, hrest⟩ := h.exists_rest
  by_cases hwaits : work k mid = none
  · exact ⟨_, .later mid (mid.now + 1) _ hmid hwaits hrest (Nat.lt_succ_self _)
      (fun _ _ hahead => hahead) .refl⟩
  · exact ⟨mid, .woken mid hmid hwaits⟩

namespace Awaits

theorem mono {q : List Mark → Site → ρ → Prop} (h : Awaits cast work timers p told k site)
    (hpq : ∀ told next result, p told next result → q told next result) :
    Awaits cast work timers q told k site := by
  induction h with
  | ends told k site next result hstep hp =>
    exact .ends told k site next result hstep (hpq _ _ _ hp)
  | goesOn told k k' site next hstep _ ih => exact .goesOn told k k' site next hstep ih
  | waits told k site hwaits hlive _ ih => exact .waits told k site hwaits hlive ih

/-- Work that comes to its end, whatever others do, does come to it. -/
theorem reaches (h : Awaits cast work timers p told k site) :
    ∃ told next result, p told next result := by
  induction h with
  | ends told k site next result _ hp => exact ⟨_, next, result, hp⟩
  | goesOn _ _ _ _ _ _ _ ih => exact ih
  | waits _ _ _ _ hlive _ ih =>
    obtain ⟨last, hlast⟩ := hlive
    exact ih last hlast

/-- Work comes to its end if each of its steps leaves less to be done, and if it need not wait any
more when a certain time has come. -/
theorem of_invariant (inv : List Mark → κ → Site → Prop) (size : κ → Nat) (limit : Nat)
    (hends : ∀ told k site next result, inv told k site → work k site = some (next, .inr result) →
      p (site.marksTo next ++ told) next result)
    (hgoes : ∀ told k k' site next, inv told k site → work k site = some (next, .inl k') →
      size k' < size k ∧ inv (site.marksTo next ++ told) k' next)
    (hwaits : ∀ told k site, inv told k site → work k site = none →
      site.HasTold cast ∧ site.now < limit ∧
        ∀ last, Resumes cast work timers k site last → inv told k last)
    (h : inv told k site) : Awaits cast work timers p told k site := by
  generalize hn : size k = n
  induction n using Nat.strong_induction_on generalizing told k site with
  | _ n ihsize =>
    have hpoll : ∀ told site, inv told k site → work k site ≠ none →
        Awaits cast work timers p told k site := by
      intro told site hinv hgo
      obtain ⟨⟨next, result⟩, hstep⟩ := Option.ne_none_iff_exists'.mp hgo
      cases result with
      | inl k' =>
        obtain ⟨hless, hnext⟩ := hgoes told k k' site next hinv hstep
        exact .goesOn told k k' site next hstep (ihsize _ (hn ▸ hless) hnext rfl)
      | inr result => exact .ends told k site next result hstep (hends _ _ _ _ _ hinv hstep)
    generalize hm : limit - site.now = m
    induction m using Nat.strong_induction_on generalizing site with
    | _ m ihtime =>
      by_cases hgo : work k site = none
      · obtain ⟨htold, hlimit, hresumes⟩ := hwaits told k site h hgo
        refine .waits told k site hgo htold.exists_resumes fun last hlast => ?_
        have hinv := hresumes last hlast
        cases hlast with
        | woken _ _ hgoes => exact hpoll told last hinv hgoes
        | later mid moment _ hstirs _ _ hpass _ hafter =>
          have hmid : mid.now = site.now := now_of_stirs hstirs
          have hlast : last.now = moment := now_of_stirs hafter
          exact ihtime (limit - last.now) (by omega) hinv rfl
      · exact hpoll told site h hgo

end Awaits

end Site

end AddonWatch

import AddonWatch.Proofs.Dismissal
import Mathlib.Data.List.MinMax
import Mathlib.Data.List.Nodup

namespace AddonWatch

/-- How long it takes until the child has ended that is told to stop at `start`, or is stopped for
good. -/
def Handle.delay (handle : Handle) (grace : Span) (start : Site) : Nat :=
  match start.children[handle.child]?.bind (·.ending? start.now) with
  | some (time, _) => min (time - start.now) grace.millis
  | none => grace.millis

namespace Handle

variable {handle : Handle} {grace : Span} {start site last : Site}

theorem DismissedAs.time_eq {d : Dismissal} (h : handle.DismissedAs grace start d) :
    d.time = start.now + handle.delay grace start := by
  obtain ⟨child, hc, has⟩ := h
  cases has with
  | ended time condition hending hle =>
    have hsince := Child.le_of_ending? hending
    simp only [delay, hc, Option.bind_some, hending]
    omega
  | aborted hrun hlate =>
    cases hending : child.ending? start.now with
    | none => simp [delay, hc, hending]
    | some ending =>
      have hle := hlate ending.1 ending.2 hending
      simp only [delay, hc, Option.bind_some, hending]
      omega

theorem delay_le (handle : Handle) (grace : Span) (start : Site) :
    handle.delay grace start ≤ grace.millis := by
  unfold delay
  split
  · exact Nat.min_le_right _ _
  · exact Nat.le_refl grace.millis

/-- The child runs and ends at the very deadline. -/
def IsTied (handle : Handle) (grace : Span) (start : Site) : Prop :=
  ∃ child, start.children[handle.child]? = some child ∧ child.IsTied start.now grace

theorem DismissedAs.unique {d d' : Dismissal} (h : handle.DismissedAs grace start d)
    (h' : handle.DismissedAs grace start d') (htie : ¬handle.IsTied grace start) : d = d' := by
  obtain ⟨child, hc, has⟩ := h
  obtain ⟨other, hother, has'⟩ := h'
  obtain rfl : other = child := Option.some.inj (hother.symm.trans hc)
  have hfree : ¬other.IsTied start.now grace := fun htied => htie ⟨other, hc, htied⟩
  rw [has.eq_dismissal hfree, has'.eq_dismissal hfree]

/-- A child that is still waited for could not have been let go of before. -/
theorem Bides.now_le (h : handle.Bides grace start site) :
    site.now ≤ start.now + handle.delay grace start := by
  obtain ⟨⟨child, c, hchild, hc, hf, hsame, -⟩, hsince, hwithin⟩ := h
  cases hending : child.ending? start.now with
  | none =>
    simp only [delay, hchild, Option.bind_some, hending]
    omega
  | some ending =>
    have hle := Child.le_of_ending? (hsame.trans hending)
    simp only [delay, hchild, Option.bind_some, hending]
    omega

/-- What has become of a child stays so, whatever goes on. -/
theorem IsDismissed.resumes {κ ρ : Type} {work : κ → Site → Option (Site × (κ ⊕ ρ))}
    {timers : κ → List Nat} {cast : List Nat} {k : κ} {condition : Condition}
    (h : handle.IsDismissed site condition) (hi : handle.child ∈ cast)
    (hr : Site.Resumes cast work timers k site last) : handle.IsDismissed last condition := by
  have hstirs : ∀ a b : Site, Relation.ReflTransGen (Site.Stirs cast) a b →
      handle.IsDismissed a condition → handle.IsDismissed b condition := by
    intro a b hab ha
    induction hab with
    | refl => exact ha
    | tail _ hstir ih =>
      obtain ⟨c, hc, hf, hdone, hcondition⟩ := ih
      obtain ⟨c', hc', hf', -, hgoes⟩ := hstir.told hi hc hf
      have hsame : c' = c := hgoes.resolve_right (by simp [hdone])
      exact ⟨c', hc', hf', hsame ▸ hdone, hsame ▸ hcondition⟩
  cases hr with
  | woken _ hbefore => exact hstirs _ _ hbefore h
  | later mid moment _ hbefore _ _ _ _ hafter =>
    have hmid := hstirs site mid hbefore h
    exact hstirs _ last hafter hmid

end Handle

theorem Site.Resumes.now_le {κ ρ : Type} {work : κ → Site → Option (Site × (κ ⊕ ρ))}
    {timers : κ → List Nat} {cast : List Nat} {k : κ} {site last : Site}
    (h : Site.Resumes cast work timers k site last) : site.now ≤ last.now := by
  cases h with
  | woken _ hstirs => exact Nat.le_of_eq (now_of_stirs hstirs).symm
  | later mid moment _ hbefore _ _ hpass _ hafter =>
    have hmid : mid.now = site.now := now_of_stirs hbefore
    have hlast : last.now = moment := now_of_stirs hafter
    omega

/-- What is remarked on when the child of that addon is let go of with all others. -/
def Dismissal.closingRemarks (d : Dismissal) (e : AddonKey × Handle) (grace : Span) : List Mark :=
  if d.inTime then d.remarks e.2 grace
  else .logged .warn ("Abandoned config watcher of addon " ++ e.1.text ++ " during shutdown") ::
    d.remarks e.2 grace

namespace Closing

/-- The end of a roster as work of its own. -/
def work (c : Closing) (site : Site) : Option (Site × (Closing ⊕ Unit)) :=
  (c.step site).map fun
    | (site, some next) => (site, .inl next)
    | (site, none) => (site, .inr ())

/-- One child is let go of, and the others are still waited for. -/
theorem cases_of_settleOne {pending rest : List (AddonKey × Settling)} {site next : Site}
    (h : settleOne site pending = some (next, rest)) :
    ∃ before key s after mid inTime, pending = before ++ (key, s) :: after ∧
      rest = before ++ after ∧ s.step site = some (mid, inTime) ∧
      next = if inTime then mid else mid.log .warn ("Abandoned config watcher of addon " ++
        key.text ++ " during shutdown") := by
  induction pending generalizing rest with
  | nil => cases h
  | cons first others ih =>
    obtain ⟨key, s⟩ := first
    unfold settleOne at h
    split at h
    next mid hs =>
      obtain ⟨rfl, rfl⟩ := Prod.mk.inj (Option.some.inj h)
      exact ⟨[], key, s, others, mid, true, rfl, rfl, hs, rfl⟩
    next mid hs =>
      obtain ⟨rfl, rfl⟩ := Prod.mk.inj (Option.some.inj h)
      exact ⟨[], key, s, others, mid, false, rfl, rfl, hs, rfl⟩
    next =>
      obtain ⟨⟨after, left⟩, hothers, hsame⟩ := Option.map_eq_some_iff.mp h
      cases hsame
      obtain ⟨before, key', s', behind, mid, inTime, rfl, rfl, hs, hnext⟩ := ih hothers
      exact ⟨(key, s) :: before, key', s', behind, mid, inTime, rfl, rfl, hs, hnext⟩

theorem wait_of_settleOne {pending : List (AddonKey × Settling)} {site : Site}
    (h : settleOne site pending = none) : ∀ e ∈ pending, e.2.step site = none := by
  induction pending with
  | nil => simp
  | cons first others ih =>
    unfold settleOne at h
    split at h
    next => cases h
    next => cases h
    next hwaits =>
      intro e he
      rcases List.mem_cons.mp he with rfl | hother
      · exact hwaits
      · exact ih (Option.map_eq_none_iff.mp h) e hother

/-- What keeps a roster from closing is that some children run, and all that are waited for do. -/
theorem wait_of_work {c : Closing} {site : Site} (h : c.work site = none) :
    c.pending ≠ [] ∧ ∀ e ∈ c.pending, e.2.step site = none := by
  have hstep : c.step site = none := Option.map_eq_none_iff.mp h
  unfold step at hstep
  split at hstep
  · cases hstep
  next hopen =>
    exact ⟨by simpa using hopen, wait_of_settleOne (Option.map_eq_none_iff.mp hstep)⟩

theorem getElem?_foldl_fire {entries : List (AddonKey × Handle)} {site : Site} {i : Nat}
    {child : Child} (hc : site.children[i]? = some child)
    (hi : i ∈ entries.map fun e => e.2.child) :
    (entries.foldl (fun site e => site.fire e.2.child) site).children[i]? =
      some { child with fired := true } := by
  have hkeeps : ∀ (entries : List (AddonKey × Handle)) (site : Site),
      site.children[i]? = some { child with fired := true } →
      (entries.foldl (fun site e => site.fire e.2.child) site).children[i]? =
        some { child with fired := true } := by
    intro entries
    induction entries with
    | nil => exact fun _ h => h
    | cons first rest ih =>
      intro site h
      refine ih (site.fire first.2.child) ?_
      rw [Site.fire, Site.getElem?_setChild, h]
      split <;> rfl
  induction entries generalizing site with
  | nil => simp at hi
  | cons first rest ih =>
    by_cases hfirst : first.2.child = i
    · subst hfirst
      exact hkeeps rest _ (Site.getElem?_fire hc)
    · have hrest : i ∈ rest.map fun e => e.2.child :=
        (List.mem_cons.mp hi).resolve_left (Ne.symm hfirst)
      have hkept : (site.fire first.2.child).children[i]? = some child := by
        rw [Site.fire, Site.getElem?_setChild, if_neg hfirst, hc]
      exact ih hkept hrest

/-- Where the end of a roster has come to that began at `start`: some children have been let go of,
and the others are on their way. -/
structure ComesAlong (roster : Roster) (grace : Span) (start : Site) (told : List Mark)
    (c : Closing) (site : Site) (settled : List ((AddonKey × Handle) × Dismissal)) : Prop where
  all : (settled.map Prod.fst ++ c.pending.map fun e => (e.1, e.2.handle)).Perm roster.entries
  waits : ∀ e ∈ c.pending, e.2 = ⟨e.2.handle, grace, start.now + grace.millis⟩ ∧
    e.2.handle.Bides grace start site
  gone : ∀ s ∈ settled, s.1.2.DismissedAs grace start s.2 ∧
    s.1.2.IsDismissed site s.2.condition ∧ s.2.time ≤ site.now
  told : told = settled.flatMap fun s => s.2.closingRemarks s.1 grace
  since : start.now ≤ site.now
  within : site.now ≤
    start.now + (roster.entries.map fun e => e.2.delay grace start).foldr max 0

variable {roster : Roster} {grace : Span} {start site next last : Site} {told : List Mark}
  {c c' : Closing} {settled : List ((AddonKey × Handle) × Dismissal)}

namespace ComesAlong

theorem of_start (hhere : ∀ e ∈ roster.entries, ∃ child, start.children[e.2.child]? = some child) :
    ComesAlong roster grace start [] (Closing.start roster grace start).2
      (Closing.start roster grace start).1 [] := by
  have hnow : (Closing.start roster grace start).1.now = start.now :=
    (start_windsDown roster grace start).now
  refine ⟨?_, ?_, by simp, rfl, Nat.le_of_eq hnow.symm, ?_⟩
  · simp [Closing.start, Function.comp_def]
  · intro e he
    obtain ⟨entry, hentry, rfl⟩ := List.mem_map.mp he
    obtain ⟨child, hc⟩ := hhere entry hentry
    have hf := getElem?_foldl_fire hc (List.mem_map_of_mem hentry)
    exact ⟨rfl, .of_fired hc hf hnow⟩
  · rw [hnow]
    exact Nat.le_add_right _ _

/-- Every child of the roster is either let go of or waited for. -/
theorem mem (h : ComesAlong roster grace start told c site settled) {e : AddonKey × Handle}
    (he : e ∈ roster.entries) : (∃ s ∈ settled, s.1 = e) ∨
      ∃ p ∈ c.pending, (p.1, p.2.handle) = e := by
  rcases List.mem_append.mp (h.all.mem_iff.mpr he) with hs | hp
  · exact .inl (List.mem_map.mp hs)
  · exact .inr (List.mem_map.mp hp)

theorem hasTold (h : ComesAlong roster grace start told c site settled) :
    site.HasTold (roster.entries.map fun e => e.2.child) := by
  intro i hi
  obtain ⟨e, he, rfl⟩ := List.mem_map.mp hi
  rcases h.mem he with ⟨s, hs, rfl⟩ | ⟨p, hp, rfl⟩
  · obtain ⟨-, ⟨child, hc, hf, -⟩, -⟩ := h.gone s hs
    exact ⟨child, hc, hf⟩
  · obtain ⟨⟨-, child, -, hc, hf, -⟩, -⟩ := (h.waits p hp).2
    exact ⟨child, hc, hf⟩

theorem mem_cast (h : ComesAlong roster grace start told c site settled) :
    (∀ s ∈ settled, s.1.2.child ∈ roster.entries.map fun e => e.2.child) ∧
    ∀ p ∈ c.pending, p.2.handle.child ∈ roster.entries.map fun e => e.2.child := by
  constructor
  · intro s hs
    have hentry := h.all.mem_iff.mp (List.mem_append_left _ (List.mem_map_of_mem hs))
    exact List.mem_map_of_mem hentry
  · intro p hp
    have hentry := h.all.mem_iff.mp (List.mem_append_right _
      (List.mem_map_of_mem (f := fun e : AddonKey × Settling => (e.1, e.2.handle)) hp))
    exact List.mem_map_of_mem (f := fun e : AddonKey × Handle => e.2.child) hentry

/-- As long as a child is waited for, the longest wait is not over. -/
theorem now_le {p : AddonKey × Settling} (hp : (p.1, p.2.handle) ∈ roster.entries)
    (h : p.2.handle.Bides grace start site) : site.now ≤
      start.now + (roster.entries.map fun e => e.2.delay grace start).foldr max 0 := by
  have hdelay : p.2.handle.delay grace start ≤
      (roster.entries.map fun e => e.2.delay grace start).foldr max 0 :=
    List.le_max_of_le (List.mem_map_of_mem (f := fun e => e.2.delay grace start) hp)
      (Nat.le_refl _)
  have hnow := h.now_le
  omega

theorem resumes (h : ComesAlong roster grace start told c site settled)
    (hwaits : c.work site = none)
    (hr : Site.Resumes (roster.entries.map fun e => e.2.child) Closing.work Closing.timers c site
      last) : ComesAlong roster grace start told c last settled := by
  obtain ⟨hsettled, hpending⟩ := h.mem_cast
  have hbides : ∀ p ∈ c.pending, p.2 = ⟨p.2.handle, grace, start.now + grace.millis⟩ ∧
      p.2.handle.Bides grace start last := by
    intro p hp
    obtain ⟨heq, hbides⟩ := h.waits p hp
    refine ⟨heq, hbides.resumes (hpending p hp) (fun mid hmid => ?_) ?_ hwaits hr⟩
    · rw [← heq]
      exact (wait_of_work hmid).2 p hp
    · refine List.mem_flatMap.mpr ⟨p, hp, ?_⟩
      rw [heq]
      exact List.mem_singleton_self _
  obtain ⟨p, hp⟩ := List.exists_mem_of_ne_nil _ (wait_of_work hwaits).1
  have hentry := h.all.mem_iff.mp (List.mem_append_right _
    (List.mem_map_of_mem (f := fun e : AddonKey × Settling => (e.1, e.2.handle)) hp))
  refine ⟨h.all, hbides, fun s hs => ?_, h.told, Nat.le_trans h.since hr.now_le,
    now_le hentry (hbides p hp).2⟩
  obtain ⟨has, hover, htime⟩ := h.gone s hs
  exact ⟨has, hover.resumes (hsettled s hs) hr, Nat.le_trans htime hr.now_le⟩

/-- A child that can be let go of is, and that is remarked on; the others are as they were. -/
theorem settles (h : ComesAlong roster grace start told c site settled)
    (hown : (roster.entries.map fun e => e.2.child).Nodup)
    (hstep : c.work site = some (next, .inl c')) : c'.pending.length < c.pending.length ∧
      ∃ settled', ComesAlong roster grace start (site.marksTo next ++ told) c' next settled' := by
  obtain ⟨⟨after, result⟩, hstep, hsame⟩ := Option.map_eq_some_iff.mp hstep
  unfold step at hstep
  split at hstep
  · cases hstep
    cases hsame
  obtain ⟨⟨after, rest⟩, hone, hresult⟩ := Option.map_eq_some_iff.mp hstep
  cases hresult
  cases hsame
  obtain ⟨before, key, s, behind, mid, inTime, hpending, hrest, hs, hnext⟩ :=
    cases_of_settleOne hone
  obtain ⟨pending⟩ := c
  subst hpending hrest
  obtain ⟨hsettling, hbides⟩ : s = ⟨s.handle, grace, start.now + grace.millis⟩ ∧
      s.handle.Bides grace start site := h.waits (key, s) (by simp)
  rw [hsettling] at hs
  obtain ⟨condition, has, hover, hspares, htrace⟩ := hbides.settles hs
  have hothers : s.handle.child ∉ settled.map (fun e => e.1.2.child) ++
      (before ++ behind).map fun e => e.2.handle.child := by
    have hnodup := (h.all.map fun e => e.2.child).nodup_iff.mpr hown
    simp only [List.map_append, List.map_cons, List.map_map, ← List.append_assoc] at hnodup
    have hmiddle := (List.nodup_cons.mp (List.nodup_middle.mp hnodup)).1
    simpa [Function.comp_def] using hmiddle
  have hchildren : next.children = mid.children := by
    rw [hnext]
    cases inTime <;> rfl
  have hnow : next.now = site.now := by
    rw [← hspares.now, hnext]
    cases inTime <;> rfl
  have hkept : ∀ i, i ≠ s.handle.child → next.children[i]? = site.children[i]? := by
    intro i hi
    rw [hchildren]
    exact hspares.children i hi
  have hmarks : next.trace = (⟨site.now, inTime, condition⟩ : Dismissal).closingRemarks
      (key, s.handle) grace ++ site.trace := by
    rw [hnext]
    cases inTime with
    | true => simpa [Dismissal.closingRemarks] using htrace
    | false => simp [Dismissal.closingRemarks, Site.log, Site.mark, htrace]
  refine ⟨by simp, ((key, s.handle), ⟨site.now, inTime, condition⟩) :: settled, ?_, ?_, ?_, ?_, ?_,
    ?_⟩
  · refine List.Perm.trans ?_ h.all
    simp only [List.map_cons, List.map_append, List.cons_append, ← List.append_assoc]
    exact List.perm_middle.symm
  · intro p hp
    have hmem : p ∈ before ++ (key, s) :: behind := by
      rcases List.mem_append.mp hp with hbefore | hbehind
      · exact List.mem_append_left _ hbefore
      · exact List.mem_append_right _ (List.mem_cons_of_mem _ hbehind)
    have hne : p.2.handle.child ≠ s.handle.child := by
      intro heq
      refine hothers (List.mem_append_right _ (List.mem_map.mpr ⟨p, hp, heq⟩))
    obtain ⟨heq, hstill⟩ := h.waits p hmem
    exact ⟨heq, hstill.of_same (hkept _ hne) hnow⟩
  · intro d hd
    rcases List.mem_cons.mp hd with rfl | hold
    · obtain ⟨last, hlast, hf, hdone, hcondition⟩ := hover
      exact ⟨has, ⟨last, hchildren ▸ hlast, hf, hdone, hcondition⟩, Nat.le_of_eq hnow.symm⟩
    · have hne : d.1.2.child ≠ s.handle.child := by
        intro heq
        exact hothers (List.mem_append_left _ (List.mem_map.mpr ⟨d, hold, heq⟩))
      obtain ⟨hhas, ⟨last, hlast, hf, hdone, hcondition⟩, htime⟩ := h.gone d hold
      exact ⟨hhas, ⟨last, (hkept _ hne).trans hlast, hf, hdone, hcondition⟩, hnow.symm ▸ htime⟩
  · rw [Site.marksTo_of_append hmarks, h.told, List.flatMap_cons]
  · rw [hnow]
    exact h.since
  · rw [hnow]
    exact h.within

/-- When all children have been let go of, the longest wait is just over. -/
theorem now_eq (h : ComesAlong roster grace start told c site settled) (hnone : c.pending = []) :
    site.now = start.now + (roster.entries.map fun e => e.2.delay grace start).foldr max 0 := by
  refine Nat.le_antisymm h.within ?_
  have hlongest : (roster.entries.map fun e => e.2.delay grace start).foldr max 0 ≤
      site.now - start.now := by
    refine List.max_le_of_forall_le _ _ fun delay hdelay => ?_
    obtain ⟨e, he, rfl⟩ := List.mem_map.mp hdelay
    rcases h.mem he with ⟨s, hs, rfl⟩ | ⟨p, hp, -⟩
    · obtain ⟨has, -, htime⟩ := h.gone s hs
      have heq := has.time_eq
      omega
    · rw [hnone] at hp
      cases hp
  have hsince := h.since
  omega

end ComesAlong

/-- A warning that a child was abandoned names the addon of one that was. -/
theorem abandoned_iff (settled : List ((AddonKey × Handle) × Dismissal)) (grace : Span)
    (key : AddonKey) :
    .logged .warn ("Abandoned config watcher of addon " ++ key.text ++ " during shutdown") ∈
        (settled.flatMap fun s => s.2.closingRemarks s.1 grace) ↔
      ∃ s ∈ settled, s.1.1.text = key.text ∧ s.2.inTime = false := by
  have hbegins : ∀ addon name time : String, "Abandoned config watcher of addon " ++ addon ++
      " during shutdown" ≠ "Config watcher for " ++ name ++ " did not stop within " ++ time ++
        ", aborting" := by
    intro addon name time h
    have htext := congrArg String.toList h
    simp at htext
  have hother : ∀ (d : Dismissal) (handle : Handle),
      .logged .warn ("Abandoned config watcher of addon " ++ key.text ++ " during shutdown") ∉
        d.remarks handle grace := by
    intro d handle hmem
    unfold Dismissal.remarks at hmem
    split at hmem
    · split at hmem
      · simp at hmem
      · simp at hmem
    · simp only [List.mem_singleton, Mark.logged.injEq, true_and] at hmem
      exact hbegins _ _ _ hmem
  have hsame : ∀ text : String, "Abandoned config watcher of addon " ++ key.text ++
      " during shutdown" = "Abandoned config watcher of addon " ++ text ++ " during shutdown" →
      text = key.text := by
    intro text h
    have htext := congrArg String.toList h
    simp only [String.toList_append, List.append_assoc, List.append_cancel_left_eq,
      List.append_cancel_right_eq] at htext
    exact (String.toList_inj.mp htext).symm
  simp only [List.mem_flatMap]
  refine exists_congr fun s => and_congr_right fun hs => ?_
  unfold Dismissal.closingRemarks
  cases hin : s.2.inTime with
  | true =>
    have hnot := hother s.2 s.1.2
    simpa only [if_true, Bool.true_eq_false, and_false, iff_false] using hnot
  | false =>
    simp only [Bool.false_eq_true, if_false, List.mem_cons, Mark.logged.injEq, true_and, and_true]
    constructor
    · rintro (heq | hmem)
      · exact hsame _ heq
      · exact absurd hmem (hother s.2 s.1.2)
    · intro heq
      rw [heq]
      exact .inl rfl

/-- Whatever others do, a roster that closes lets go of all its children, each when it has ended or
its time is over. -/
theorem awaits (grace : Span)
    (hhere : ∀ e ∈ roster.entries, ∃ child, site.children[e.2.child]? = some child)
    (hown : (roster.entries.map fun e => e.2.child).Nodup) :
    Site.Awaits (roster.entries.map fun e => e.2.child) Closing.work Closing.timers
      (fun told next _ =>
        next.now = site.now + (roster.entries.map fun e => e.2.delay grace site).foldr max 0 ∧
        ∃ settled : List ((AddonKey × Handle) × Dismissal),
          (settled.map Prod.fst).Perm roster.entries ∧
          told = settled.flatMap (fun s => s.2.closingRemarks s.1 grace) ∧
          ∀ s ∈ settled, s.1.2.DismissedAs grace site s.2 ∧
            s.1.2.IsDismissed next s.2.condition)
      [] (Closing.start roster grace site).2 (Closing.start roster grace site).1 := by
  refine Site.Awaits.of_invariant
    (fun told c mid => ∃ settled, ComesAlong roster grace site told c mid settled)
    (fun c => c.pending.length) (site.now + grace.millis) ?_ ?_ ?_ ⟨[], .of_start hhere⟩
  · rintro told c mid next result ⟨settled, h⟩ hstep
    obtain ⟨⟨after, left⟩, hlast, hsame⟩ := Option.map_eq_some_iff.mp hstep
    cases left with
    | some _ => cases hsame
    | none =>
      obtain rfl : after = next := (Prod.mk.inj hsame).1
      have hnone := pending_of_step_none hlast
      obtain rfl : mid = after := by
        simp only [step, hnone, List.isEmpty_nil, if_true] at hlast
        exact (Prod.mk.inj (Option.some.inj hlast)).1
      have hall := h.all
      rw [hnone, List.map_nil, List.append_nil] at hall
      refine ⟨h.now_eq hnone, settled, hall, ?_, fun s hs => ?_⟩
      · have hsilent : mid.marksTo mid = [] := Site.marksTo_of_append rfl
        rw [hsilent, List.nil_append, h.told]
      · obtain ⟨has, hover, -⟩ := h.gone s hs
        exact ⟨has, hover⟩
  · rintro told c c' mid next ⟨settled, h⟩ hstep
    exact h.settles hown hstep
  · rintro told c mid ⟨settled, h⟩ hwaits
    obtain ⟨hopen, hall⟩ := wait_of_work hwaits
    obtain ⟨p, hp⟩ := List.exists_mem_of_ne_nil _ hopen
    have hlt := Settling.lt_deadline (hall p hp)
    rw [(h.waits p hp).1] at hlt
    exact ⟨h.hasTold, hlt, fun last hlast => ⟨settled, h.resumes hwaits hlast⟩⟩

/-- To close a roster settles all its children at once, however many they are, whatever they run and
whatever others do meanwhile. All triggers have fired before any time goes by, and nothing is
registered any more. It is over when the last child has ended or its time is over, and so never
later than when the time for one is. Each child then has come out of it as it would have if it alone
had been cancelled, unless it ends at the very deadline, where there are two ways for it. What is
remarked on is what would be for each alone, and a warning for each addon whose child was stopped
for good. -/
theorem all_settled_at_once (roster : Roster) (grace : Span) (site : Site)
    (hhere : ∀ e ∈ roster.entries, ∃ child, site.children[e.2.child]? = some child)
    (hown : (roster.entries.map fun e => e.2.child).Nodup) :
    (Closing.start roster grace site).1.now = site.now ∧
    (∀ e ∈ roster.entries, ∀ child, site.children[e.2.child]? = some child →
      (Closing.start roster grace site).1.children[e.2.child]? =
        some { child with fired := true }) ∧
    (∀ desk : Desk, desk.roster = roster → site.settings.cancelGrace = grace →
      (desk.close site).1 = (Closing.start roster grace site).1 ∧
      (desk.close site).2.phase = .closing (Closing.start roster grace site).2 ∧
      (desk.close site).2.roster.entries = []) ∧
    Site.Awaits (roster.entries.map fun e => e.2.child) Closing.work Closing.timers
      (fun told next _ =>
        next.now = site.now + (roster.entries.map fun e => e.2.delay grace site).foldr max 0 ∧
        next.now ≤ site.now + grace.millis ∧
        ∃ settled : List ((AddonKey × Handle) × Dismissal),
          (settled.map Prod.fst).Perm roster.entries ∧
          told = settled.flatMap (fun s => s.2.closingRemarks s.1 grace) ∧
          (∀ key : AddonKey, .logged .warn ("Abandoned config watcher of addon " ++ key.text ++
              " during shutdown") ∈ told ↔
            ∃ s ∈ settled, s.1.1.text = key.text ∧ s.2.inTime = false) ∧
          ∀ s ∈ settled, s.1.2.DismissedAs grace site s.2 ∧
            s.1.2.IsDismissed next s.2.condition ∧
            Site.Awaits [s.1.2.child] Settling.work Settling.timers
              (fun _ alone inTime => ∃ condition, s.1.2.IsDismissed alone condition ∧
                s.1.2.DismissedAs grace site ⟨alone.now, inTime, condition⟩ ∧
                (¬s.1.2.IsTied grace site →
                  (⟨alone.now, inTime, condition⟩ : Dismissal) = s.2))
              [] (s.1.2.cancel grace site).2 (s.1.2.cancel grace site).1)
      [] (Closing.start roster grace site).2 (Closing.start roster grace site).1 := by
  refine ⟨(start_windsDown roster grace site).now, fun e he child hc =>
    getElem?_foldl_fire hc (List.mem_map_of_mem he), ?_, (awaits grace hhere hown).mono ?_⟩
  · rintro desk rfl rfl
    exact ⟨rfl, rfl, rfl⟩
  · rintro told next - ⟨hnow, settled, hall, htold, hover⟩
    refine ⟨hnow, ?_, settled, hall, htold, ?_, fun s hs => ?_⟩
    · have hlongest : (roster.entries.map fun e => e.2.delay grace site).foldr max 0 ≤
          grace.millis := by
        refine List.max_le_of_forall_le _ _ fun delay hdelay => ?_
        obtain ⟨e, -, rfl⟩ := List.mem_map.mp hdelay
        exact e.2.delay_le grace site
      omega
    · intro key
      rw [htold]
      exact abandoned_iff settled grace key
    · obtain ⟨has, hdone⟩ := hover s hs
      have hchild := has
      obtain ⟨child, hc, -⟩ := hchild
      refine ⟨has, hdone, (Handle.awaits grace hc).mono ?_⟩
      rintro - alone inTime ⟨condition, halone, hcome, -⟩
      exact ⟨condition, hcome, halone, fun htie => halone.unique has htie⟩

/-- Of a watcher that takes its time, one that does not listen and one that has crashed, the second
one is waited for until its time is over. -/
theorem all_settled_at_once_three : ∃ next : Site, next.now = 1000 ∧
    ∀ i < 3, next.isFinished i = true := by
  let roster : Roster := ⟨[(⟨"ns", "a"⟩, ⟨⟨"t"⟩, 0⟩), (⟨"ns", "b"⟩, ⟨⟨"t"⟩, 1⟩),
    (⟨"ns", "c"⟩, ⟨⟨"t"⟩, 2⟩)]⟩
  let site : Site := { children := [{ body := .timed { onCancel := some (300, .returns) } },
    { body := .timed {} }, { body := .timed {}, condition := .crashed }] }
  have hhere : ∀ e ∈ roster.entries, ∃ child, site.children[e.2.child]? = some child := by
    simp [roster, site]
  obtain ⟨-, -, -, hawaits⟩ := all_settled_at_once roster (Span.ofSeconds 1) site hhere (by decide)
  obtain ⟨-, next, -, hnow, -, settled, hall, -, -, hover⟩ := hawaits.reaches
  refine ⟨next, hnow.trans (by decide), fun i hi => ?_⟩
  have hentry : ∃ e ∈ roster.entries, e.2.child = i := by
    have hcases : i = 0 ∨ i = 1 ∨ i = 2 := by omega
    rcases hcases with rfl | rfl | rfl <;> simp [roster]
  obtain ⟨e, he, rfl⟩ := hentry
  obtain ⟨s, hs, rfl⟩ := List.mem_map.mp (hall.mem_iff.mpr he)
  obtain ⟨-, ⟨last, hlast, -, hdone, -⟩, -⟩ := hover s hs
  rw [Site.isFinished_of_getElem? hlast, hdone]

end Closing

/-- The registry that calls work on holds tasks that there are, each of them once. -/
theorem Session.Orderly.owns {mine : String → Prop} {s : Session} (h : s.Orderly mine) :
    (∀ e ∈ s.roster.entries, ∃ child, s.site.children[e.2.child]? = some child) ∧
      (s.roster.entries.map fun e => e.2.child).Nodup := by
  have hfor : ∀ e ∈ s.roster.entries, e.2.IsFor s.site e.1 := fun e he => (h.entries e he).2
  constructor
  · intro e he
    exact ⟨_, List.getElem?_eq_getElem (hfor e he).lt_length⟩
  · refine List.Nodup.map_on ?_ h.nodup.of_map
    intro e he e' he' hsame
    obtain ⟨a, ha, hkey, -⟩ := hfor e he
    obtain ⟨a', ha', hkey', -⟩ := hfor e' he'
    rw [← hsame] at ha'
    obtain rfl : a = a' := Option.some.inj (ha.symm.trans ha')
    exact List.inj_on_of_nodup_map h.nodup he he' (hkey.symm.trans hkey')

end AddonWatch

import AddonWatch.Proofs.Aiming
import AddonWatch.Proofs.Attribution
import AddonWatch.Proofs.Commits
import AddonWatch.Proofs.Intent
import AddonWatch.Proofs.Vacancy

namespace AddonWatch

/-- What has been told of the addon of that key, the latest first. -/
def Site.notices (site : Site) (key : AddonKey) : List (Notice × String × Nat) :=
  site.trace.filterMap fun
    | .noted notice other note time => if other = key then some (notice, note, time) else none
    | _ => none

theorem Handle.isCurrent_of_live {site : Site} {i : Nat} {a : Assignment} (h : site.Live i a) :
    (⟨a.fingerprint, i⟩ : Handle).isCurrent site a.fingerprint = true := by
  simp [Handle.isCurrent, Handle.isLive_of_live h]

/-- A registered watcher that lives and is on the object that the stored addon points at is left
alone. -/
theorem Reconciling.start_of_current {text : String} {key : AddonKey} {fingerprint : Fingerprint}
    {roster : Roster} {site : Site} (hp : AddonKey.parse text = .ok key)
    (hw : site.hub.pointed key = some fingerprint)
    (hc : (roster.get? key).any (·.isCurrent site fingerprint) = true) :
    start text roster site = (site, roster, .inr .done) := by
  obtain ⟨reference, hwanted, rfl⟩ := Option.map_eq_some_iff.mp hw
  obtain ⟨addon, ha, hd⟩ : ∃ addon, site.hub.addon? key.objectName = some addon ∧
      addon.desired = some reference := Option.bind_eq_some_iff.mp hwanted
  simp only [start, hp, decision, ha, hd, hc, if_true]

/-- A recorded generation does not change where the addon points. -/
theorem Addon.desired_withObserved (addon : Addon) (observed : Generation) :
    (addon.withObserved observed).desired.map Reference.fingerprint =
      addon.desired.map Reference.fingerprint := by
  have hdeleting : (addon.withObserved observed).isDeleting = addon.isDeleting := rfl
  unfold desired
  rw [hdeleting, addon.reference_withObserved]
  split
  · rfl
  · cases addon.reference with
    | none => rfl
    | some reference =>
      have hfound : ({ reference with observed := observed } : Reference).isDiscovered =
          reference.isDiscovered := rfl
      cases hd : reference.isDiscovered <;>
        simp [Option.filter, hfound, hd, Reference.fingerprint]

/-- A watcher that nothing has cancelled goes on, unless it comes to its end. -/
theorem Site.ChildMoves.live_or_finished {site next : Site} {i : Nat} {child : Child}
    {f : Follower} {a : Assignment} (h : site.ChildMoves i child f next)
    (hc : site.children[i]? = some child) (hb : child.body = .guarded f) (hl : site.Live i a) :
    next.Live i a ∨ next.isFinished i = true := by
  refine h.goesOn_or_finished.imp_left ?_
  rintro ⟨after, f', hm, rfl⟩
  have hc' : after.children[i]? = some child := by rw [hm.children_eq]; exact hc
  obtain ⟨hub, trace, rfl⟩ := hm.site_eq
  exact live_withFollower hc' hb hm.assignment.1 hl

theorem Site.notices_of_leaves {old new : Site} {kind : Mark → Prop} {key : AddonKey}
    (h : old.Leaves kind new)
    (hk : ∀ notice note time, ¬kind (.noted notice key note time)) :
    new.notices key = old.notices key := by
  obtain ⟨marks, he, hmarks⟩ := h
  have hnone : marks.filterMap (fun
      | Mark.noted notice other note time => if other = key then some (notice, note, time) else none
      | _ => none) = [] := by
    refine List.filterMap_eq_nil_iff.mpr fun mark hm => ?_
    rcases hmarks mark hm with ⟨level, text, rfl⟩ | hkind
    · rfl
    · cases mark with
      | noted notice other note time =>
        by_cases ho : other = key
        · subst ho
          exact absurd hkind (hk notice note time)
        · simp [ho]
      | _ => rfl
  rw [Site.notices, he, List.filterMap_append, hnone]
  rfl

namespace Supervision

/-- The child ends although nothing has cancelled it. -/
def EndsByItself (s next : Supervision) (i : Nat) : Prop :=
  ∃ child, s.site.children[i]? = some child ∧ s.site.isCancelled child = false ∧
    s.step (.child i) = some next ∧ next.site.isFinished i = true

/-- The states that a run comes to from there on while the scope stands, the stored addon of the key
points at the object that the child was started for, however it changes otherwise, and the child
does not end by itself. -/
inductive Undisturbed (w : Surroundings) (i : Nat) (a : Assignment) (s : Supervision) :
    Supervision → Prop
  | refl : Undisturbed w i a s s
  | next (mid next : Supervision) (h : Undisturbed w i a s mid) (hm : mid.Moves w next)
      (hh : next.site.halted = false) (hp : next.site.hub.pointed a.key = some a.fingerprint)
      (hself : ¬mid.EndsByItself next i) : Undisturbed w i a s next

/-- The addon that the child is about to write, if any, points at the object that the child was
started for. -/
def DraftsFor (s : Supervision) (i : Nat) (a : Assignment) : Prop :=
  ∀ f write, s.site.bodies[i]? = some (.guarded f) → s.site.Live i f.assignment →
    f.phase = .writing write → write.addon.desired.map Reference.fingerprint = some a.fingerprint

variable {w : Surroundings} {s mid next : Supervision} {i : Nat} {a : Assignment} {t : Task}

theorem Undisturbed.later (h : s.Undisturbed w i a mid) : s.Later w mid := by
  induction h with
  | refl => exact .refl
  | next mid next _ hm _ _ _ ih => exact .next mid next ih hm

theorem Undisturbed.pointed (h : s.Undisturbed w i a mid)
    (hp : s.site.hub.pointed a.key = some a.fingerprint) :
    mid.site.hub.pointed a.key = some a.fingerprint := by
  cases h with
  | refl => exact hp
  | next _ _ _ _ _ hp => exact hp

/-- A desk that is at the key of a live child has only just begun with it, and has the child
registered. -/
theorem Reached.fresh_of_live (h : s.Reached w) (hl : s.site.Live i a) {j : Nat} {desk : Desk}
    (hd : s.desks[j]? = some desk) (hat : desk.IsAt a.key) :
    desk.roster.get? a.key = some ⟨a.fingerprint, i⟩ ∧ ∃ text rest,
      desk.phase = .reconciling text (.fresh text) rest ∧ AddonKey.parse text = .ok a.key := by
  obtain ⟨text, work, rest, hphase, hp⟩ := hat
  have hmine : s.partition text = j :=
    (h.orderly.desks j desk hd).texts text (by simp [hphase, DeskPhase.texts])
  have hreg : desk.roster.get? a.key = some ⟨a.fingerprint, i⟩ := by
    obtain ⟨other, ho, hreg⟩ := h.orderly.registered i a hl
    rw [← (AddonKey.parse_eq_ok_iff.mp hp).1, hmine] at ho
    obtain rfl : desk = other := Option.some.inj (hd.symm.trans ho)
    exact hreg.resolve_left (by simp [Desk.isDown, hphase])
  obtain ⟨read, hcalls⟩ := h.calling desk (List.mem_of_getElem? hd) (by rw [hphase]; rfl)
  rw [hphase] at hcalls
  have hi := hcalls.intends.2 text work rfl
  refine ⟨hreg, text, rest, ?_, hp⟩
  by_cases hs : work.IsSuspended
  · rw [hi.absent hs hp] at hreg
    cases hreg
  · obtain ⟨other, rfl⟩ : ∃ other, work = .fresh other := by
      simpa [Reconciling.IsSuspended] using hs
    obtain rfl : other = text := hi
    exact hphase

/-- The reconciliation of a key whose watcher lives and is on the right object does nothing. -/
theorem Reached.site_of_live (h : s.Reached w) (hl : s.site.Live i a)
    (hp : s.site.hub.pointed a.key = some a.fingerprint) {j : Nat} {desk : Desk}
    (hd : s.desks[j]? = some desk) (hat : desk.IsAt a.key)
    (hstep : s.step (.desk j) = some next) : next.site = s.site := by
  obtain ⟨hreg, text, rest, hphase, hparse⟩ := h.fresh_of_live hl hd hat
  have hkeep : Reconciling.start text desk.roster s.site = (s.site, desk.roster, .inr .done) :=
    Reconciling.start_of_current hparse hp (by simp [hreg, Handle.isCurrent_of_live hl])
  obtain ⟨found, desk', site, hfound, hgo, rfl⟩ := step_of_stepDesk hstep
  obtain rfl : desk = found := Option.some.inj (hd.symm.trans hfound)
  simp only [Desk.step, hphase, hl.1, Bool.false_eq_true, if_false, Reconciling.step, hkeep,
    Option.map_some, Option.some.injEq] at hgo
  exact (congrArg Prod.fst hgo).symm

theorem Reached.live_moves (h : s.Reached w) (hl : s.site.Live i a)
    (hp : s.site.hub.pointed a.key = some a.fingerprint) (hm : s.Moves w next)
    (hh : next.site.halted = false) (hself : ¬s.EndsByItself next i) : next.site.Live i a := by
  cases hm with
  | task t _ hstep =>
    cases t with
    | child j =>
      obtain ⟨site, child, f, rfl, hc, hb, -, hm⟩ := stepChild_moves hstep h.orderly.staffed
      by_cases hj : j = i
      · subst hj
        refine (hm.live_or_finished hc hb hl).resolve_right fun hdone => hself ?_
        exact ⟨child, hc, (hl.running hc).2.1, hstep, hdone⟩
      · exact hm.live_of_ne hj hl
    | desk j =>
      obtain ⟨desk, desk', site, hd, hmoves, rfl⟩ := stepDesk_cases hstep
      by_cases hat : desk.IsAt a.key
      · have hsame := h.site_of_live hl hp hd hat hstep
        exact hsame ▸ hl
      · have hseal := h.unsealed_of_live hl
        have hopen := h.isManned.opens hseal hl.1 desk (List.mem_of_getElem? hd)
        have hk := h.wellFormed hl.assignment?
        refine hmoves.spares (h.orderly.desks j desk hd) hl.1 hseal hopen ?_ i a hl rfl
        intro work rest hphase
        exact hat ⟨_, work, rest, hphase, AddonKey.parse_eq_ok_iff.mpr ⟨rfl, hk⟩⟩
    | lead =>
      obtain ⟨hub, trace, exits, he, -⟩ := (stepLead_moves hstep).shared
      rw [he]
      exact hl
  | hub hub ha => exact hl
  | time moment ht => exact hl
  | halt => cases hh

theorem Undisturbed.live (hu : s.Undisturbed w i a mid) (h : s.Reached w) (hl : s.site.Live i a)
    (hp : s.site.hub.pointed a.key = some a.fingerprint) : mid.site.Live i a := by
  induction hu with
  | refl => exact hl
  | next mid next hu hm hh _ hself ih =>
    exact (h.later hu.later).live_moves ih (hu.pointed hp) hm hh hself

/-- Whatever a task does for a key whose watcher lives and is on the right object, it asks for no
object and tells nothing. -/
theorem Reached.spares (h : s.Reached w) (hl : s.site.Live i a)
    (hp : s.site.hub.pointed a.key = some a.fingerprint) (hstep : s.step t = some next) :
    s.site.Leaves (fun mark => ∃ key, s.Makes w t key mark ∧
      (key = a.key → ∃ author addon time, mark = .wrote author addon time)) next.site := by
  have hapart : ∀ {j desk}, t = .desk j → s.desks[j]? = some desk → desk.IsAt a.key →
      next.site.trace = s.site.trace := by
    rintro j desk rfl hd hat
    exact congrArg Site.trace (h.site_of_live hl hp hd hat hstep)
  by_cases hquiet : next.site.trace = s.site.trace
  · exact .nothing hquiet
  · refine (h.makes hstep).mono fun mark hmark => ?_
    obtain ⟨key, hmakes⟩ := hmark
    refine ⟨key, hmakes, fun hk => ?_⟩
    cases hmakes with
    | opens j desk _ _ _ hd hat => exact absurd (hapart rfl hd (hk ▸ hat)) hquiet
    | tells j desk _ _ _ hd hat => exact absurd (hapart rfl hd (hk ▸ hat)) hquiet
    | writes => exact ⟨_, _, _, rfl⟩

theorem Undisturbed.notices (hu : s.Undisturbed w i a mid) (h : s.Reached w)
    (hl : s.site.Live i a) (hp : s.site.hub.pointed a.key = some a.fingerprint) :
    mid.site.notices a.key = s.site.notices a.key := by
  induction hu with
  | refl => rfl
  | next mid next hu hm _ _ _ ih =>
    refine Eq.trans ?_ ih
    cases hm with
    | task t _ hstep =>
      have hspares := (h.later hu.later).spares (hu.live h hl hp) (hu.pointed hp) hstep
      refine Site.notices_of_leaves hspares ?_
      rintro notice note time ⟨key, hmakes, hkey⟩
      cases hmakes with
      | tells =>
        obtain ⟨_, _, _, hwrote⟩ := hkey rfl
        cases hwrote
    | _ => rfl

/-- What a watcher of the key goes on to write points where the stored addon points. -/
theorem Reached.draftsFor (h : s.Reached w) (hl : s.site.Live i a)
    (hp : s.site.hub.pointed a.key = some a.fingerprint) (hd : s.DraftsFor i a)
    (hm : s.Moves w next) : next.DraftsFor i a := by
  intro g write hb hlive hphase
  rcases h.origin hm hb hlive with ⟨hold, hbefore⟩ | ⟨policy, b, feed, rfl⟩ |
    ⟨f, after, hf, hbefore, hgo⟩
  · exact hd g write hold hbefore hphase
  · cases hphase
  · rcases hgo.writing hphase with ⟨old, call, hwaits, -, rfl⟩ | ⟨-, -, hplan⟩
    · exact hd f old hf hbefore hwaits
    · obtain ⟨config, old, reference, -, ha, hwith, -⟩ := Assignment.plan_write hplan
      obtain rfl : f.assignment = a :=
        Option.some.inj (hbefore.assignment?.symm.trans hl.assignment?)
      rw [hwith, Addon.desired_withObserved]
      simpa [Hub.pointed, Hub.wanted, ha] using hp

/-- No step of a task turns the addon away from the object that its watcher was started for. -/
theorem Reached.pointed_of_step (h : s.Reached w) (hl : s.site.Live i a)
    (hp : s.site.hub.pointed a.key = some a.fingerprint) (hd : s.DraftsFor i a)
    (hstep : s.step t = some next) : next.site.hub.pointed a.key = some a.fingerprint := by
  have hkeep : next.site.hub.addon? a.key.objectName = s.site.hub.addon? a.key.objectName →
      next.site.hub.pointed a.key = some a.fingerprint := by
    intro he
    rw [Hub.pointed, Hub.wanted_congr he]
    exact hp
  cases t with
  | child j =>
    obtain ⟨site, child, f, rfl, hc, hb, hrun, hm⟩ := stepChild_moves hstep h.orderly.staffed
    have hbody := Site.getElem?_bodies.mpr ⟨child, hc, hb⟩
    by_cases hj : j = i
    · subst hj
      rcases hm.addons with he | ⟨write, hphase, he⟩
      · exact hkeep (Hub.addon?_congr _ he)
      · have hn := (hl.running hc).2.1
        have hlive := Site.Live.of_guarded hc hb hrun hn
        have ha : f.assignment = a :=
          Option.some.inj (hlive.assignment?.symm.trans hl.assignment?)
        have hname := (h.drafted hbody).objectName hphase
        have hfound : site.hub.addon? a.key.objectName = some write.addon := by
          rw [← ha, ← hname, Hub.addon?, he]
          exact Hub.find?_insertAddon_self write.addon _
        dsimp only
        rw [Hub.pointed, Hub.wanted, hfound]
        exact hd f write hbody hlive hphase
    · exact hkeep (addon?_of_other h.orderly (h.drafted hbody) hc hrun hb hm hl hj)
  | desk j =>
    obtain ⟨desk, desk', site, -, hm, rfl⟩ := stepDesk_cases hstep
    exact hkeep (Hub.addon?_congr _ hm.addons)
  | lead => exact hkeep (Hub.addon?_congr _ (stepLead_moves hstep).addons)

/-- While the stored addon points at the object that its watcher was started for, and the scope
stands and the watcher does not end by itself, whatever else is stored, seen, tried again or
failing: the watcher stays the one live watcher of the key, nothing is told of the key, and no task
asks for an object on its behalf. What is written on its behalf is the watcher's own to write, and
keeps the addon pointing there. -/
theorem watcher_left_in_place (h : s.Reached w) (hl : s.site.Live i a)
    (hp : s.site.hub.pointed a.key = some a.fingerprint) (hu : s.Undisturbed w i a mid) :
    (∀ j b, b.key = a.key → (mid.site.Live j b ↔ j = i ∧ b = a)) ∧
    mid.site.notices a.key = s.site.notices a.key ∧
    ∀ t next, mid.step t = some next →
      mid.site.Leaves (fun mark => ∃ key, mid.Makes w t key mark ∧
        (key = a.key → ∃ author addon time, mark = .wrote author addon time)) next.site ∧
      (mid.DraftsFor i a →
        next.site.hub.pointed a.key = some a.fingerprint ∧ next.DraftsFor i a) := by
  have hr := h.later hu.later
  have hlive := hu.live h hl hp
  have hpointed := hu.pointed hp
  refine ⟨fun j b hk => ⟨fun hj => ?_, ?_⟩, hu.notices h hl hp, fun t next hstep => ?_⟩
  · obtain rfl : j = i := hr.orderly.single j i b a hj hlive hk
    exact ⟨rfl, Option.some.inj (hj.assignment?.symm.trans hlive.assignment?)⟩
  · rintro ⟨rfl, rfl⟩
    exact hlive
  · refine ⟨hr.spares hlive hpointed hstep, fun hd => ?_⟩
    exact ⟨hr.pointed_of_step hlive hpointed hd hstep,
      hr.draftsFor hlive hpointed hd (.task t next hstep)⟩

/-- The tasks go on in that order as long as what comes of it is to be kept. -/
def playWhile (keep : Supervision → Bool) (s : Supervision) : List Task → Option Supervision
  | [] => some s
  | t :: rest => (s.step t).bind fun next => if keep next then next.playWhile keep rest else none

/-- The scope stands, the addon points there and the child runs on, as far as it can be computed. -/
def isUndisturbed (i : Nat) (a : Assignment) (s : Supervision) : Bool :=
  !s.site.halted && decide (s.site.hub.pointed a.key = some a.fingerprint) && !s.site.isFinished i

theorem Undisturbed.play {tasks : List Task} {later : Supervision} (h : s.Undisturbed w i a mid)
    (hp : mid.playWhile (isUndisturbed i a) tasks = some later) : s.Undisturbed w i a later := by
  induction tasks generalizing mid with
  | nil => exact Option.some.inj hp ▸ h
  | cons t rest ih =>
    obtain ⟨next, hstep, hrest⟩ := Option.bind_eq_some_iff.mp hp
    split at hrest
    next hkeep =>
      simp only [isUndisturbed, Bool.and_eq_true, Bool.not_eq_true', decide_eq_true_eq] at hkeep
      obtain ⟨⟨hh, hpointed⟩, hup⟩ := hkeep
      refine ih (.next mid next h (.task t next hstep) hh hpointed ?_) hrest
      rintro ⟨-, -, -, -, hdone⟩
      rw [hup] at hdone
      cases hdone
    next => cases hrest

/-- The watcher of the first addon has written its status, that has been seen in the addon stream,
and the desk reconciles the addon once more. -/
theorem watcher_left_in_place_first : ∃ s mid : Supervision, s.Reached .calm ∧
    s.Undisturbed .calm 0 firstAssignment mid ∧ s.site.writes = [] ∧ mid.site.writes.length = 1 ∧
    mid.step (.desk 0) ≠ none ∧ mid.site.Live 0 firstAssignment ∧
    mid.site.notices ⟨"ns", "a"⟩ = s.site.notices ⟨"ns", "a"⟩ := by
  obtain ⟨s, hs, hp⟩ := exists_of_play (opening 4) sparing_reached
    (p := fun s => s.runsFor 0 firstAssignment && s.isUndisturbed 0 firstAssignment &&
      s.site.writes.isEmpty && (s.playWhile (isUndisturbed 0 firstAssignment)
        (List.replicate 4 (.child 0) ++ [.lead] ++ List.replicate 3 (.desk 0))).any fun mid =>
          mid.site.writes.length = 1 && (mid.step (.desk 0)).isSome)
    (by decide +kernel)
  simp only [Bool.and_eq_true, List.isEmpty_iff] at hp
  obtain ⟨⟨⟨hrun, hkeep⟩, hnone⟩, hp⟩ := hp
  obtain ⟨mid, hplay, hp⟩ := (Option.any_eq_true ..).mp hp
  simp only [Bool.and_eq_true, decide_eq_true_eq] at hp
  obtain ⟨hone, hsome⟩ := hp
  simp only [isUndisturbed, Bool.and_eq_true, decide_eq_true_eq] at hkeep
  have hu : s.Undisturbed .calm 0 firstAssignment mid := Undisturbed.refl.play hplay
  obtain ⟨hlive, htold, -⟩ := watcher_left_in_place hs (live_of_runsFor hrun) hkeep.1.2 hu
  refine ⟨s, mid, hs, hu, hnone, hone, ?_, (hlive 0 firstAssignment rfl).mpr ⟨rfl, rfl⟩, htold⟩
  intro he
  rw [he] at hsome
  cases hsome

end Supervision

end AddonWatch

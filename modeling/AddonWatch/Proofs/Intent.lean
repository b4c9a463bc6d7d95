import AddonWatch.Proofs.OneWatcher

namespace AddonWatch

namespace Reconciling

/-- What a reconciliation that begins reads of its addon: the reference to follow, if there is
one. -/
def reading? (work : Reconciling) (site : Site) : Option (AddonKey × Option Reference) :=
  match work with
  | .fresh text =>
    match AddonKey.parse text with
    | .ok key => some (key, site.hub.wanted key)
    | .error _ => none
  | _ => none

/-- A reconciliation waits from its first step on. -/
def IsSuspended (work : Reconciling) : Prop :=
  ∀ text, work ≠ .fresh text

/-- Calls for one roster, one after the other: what those that have begun have read, the latest
first, the roster, and the call under way with the text it is for. Anything may happen to the site
between two steps, and a call may be dropped between any two. -/
inductive Calls :
    List (AddonKey × Option Reference) → Roster → Option (String × Reconciling) → Prop
  | start : Calls [] {} none
  | calls (read : List (AddonKey × Option Reference)) (roster : Roster) (text : String)
      (h : Calls read roster none) : Calls read roster (some (text, .fresh text))
  | goesOn (read : List (AddonKey × Option Reference)) (roster roster' : Roster) (text : String)
      (work work' : Reconciling) (site next : Site) (h : Calls read roster (some (text, work)))
      (hstep : work.step roster site = some (next, roster', .inl work')) :
      Calls ((work.reading? site).toList ++ read) roster' (some (text, work'))
  | ends (read : List (AddonKey × Option Reference)) (roster roster' : Roster) (text : String)
      (work : Reconciling) (site next : Site) (verdict : Verdict)
      (h : Calls read roster (some (text, work)))
      (hstep : work.step roster site = some (next, roster', .inr verdict)) :
      Calls ((work.reading? site).toList ++ read) roster' none
  | drops (read : List (AddonKey × Option Reference)) (roster : Roster) (text : String)
      (work : Reconciling) (h : Calls read roster (some (text, work))) : Calls read roster none

/-- Every handle is for the reference that was read last for its key. -/
def Meant (read : List (AddonKey × Option Reference)) (roster : Roster) : Prop :=
  ∀ key handle, roster.get? key = some handle → ∃ reference,
    read.lookup key = some (some reference) ∧ handle.fingerprint = reference.fingerprint

/-- While a call waits, its key has been taken out, and what it is about to start is for the
reference that it has read. -/
def Intends (read : List (AddonKey × Option Reference)) (roster : Roster) (text : String) :
    Reconciling → Prop
  | .fresh other => other = text
  | .stopping _ => ∃ key, AddonKey.parse text = .ok key ∧ roster.get? key = none
  | .replacing key _ reference _ => AddonKey.parse text = .ok key ∧ roster.get? key = none ∧
      read.lookup key = some (some reference)
  | .opening key attempt => AddonKey.parse text = .ok key ∧ roster.get? key = none ∧
      ∃ reference, read.lookup key = some (some reference) ∧
        attempt.assignment.fingerprint = reference.fingerprint

section

variable {read : List (AddonKey × Option Reference)} {roster roster' : Roster} {text : String}
  {key : AddonKey} {work : Reconciling} {site next : Site} {result : Reconciling ⊕ Verdict}

theorem reading?_fresh (hp : AddonKey.parse text = .ok key) (site : Site) :
    (Reconciling.fresh text).reading? site = some (key, site.hub.wanted key) := by
  simp only [reading?, hp]

theorem Meant.erase (h : Meant read roster) (key : AddonKey) (wanted : Option Reference) :
    Meant ((key, wanted) :: read) (roster.erase key) := by
  intro other handle hg
  have hne : other ≠ key := by
    intro he
    rw [he, Roster.get?_erase_self] at hg
    cases hg
  rw [Roster.get?_erase_of_ne roster hne] at hg
  rw [List.lookup_cons, beq_false_of_ne hne]
  exact h other handle hg

/-- A read that finds the reference of the handle keeps its meaning. -/
theorem Meant.keep {handle : Handle} {reference : Reference} (h : Meant read roster)
    (hg : roster.get? key = some handle) (hf : handle.fingerprint = reference.fingerprint) :
    Meant ((key, some reference) :: read) roster := by
  intro other found ho
  by_cases hk : other = key
  · subst hk
    rw [hg] at ho
    cases ho
    exact ⟨reference, by simp, hf⟩
  · rw [List.lookup_cons, beq_false_of_ne hk]
    exact h other found ho

theorem Meant.insert {handle : Handle} {reference : Reference} (h : Meant read roster)
    (hl : read.lookup key = some (some reference))
    (hf : handle.fingerprint = reference.fingerprint) :
    Meant read (roster.insert key handle).2 := by
  intro other found ho
  by_cases hk : other = key
  · subst hk
    rw [Roster.get?_insert_self] at ho
    cases ho
    exact ⟨reference, hl, hf⟩
  · rw [Roster.get?_insert_of_ne roster handle hk] at ho
    exact h other found ho

/-- A step touches no entry but the one of the key that the call is for. -/
theorem Moves.get?_of_ne (hm : work.Moves site roster next roster' result)
    (hi : work.Intends read roster text) {other : AddonKey}
    (hne : AddonKey.parse text ≠ .ok other) : roster'.get? other = roster.get? other := by
  cases hm with
  | absent _ key hp =>
    obtain rfl : _ = text := hi
    exact Roster.get?_erase_of_ne roster fun he => hne (he ▸ hp)
  | stops _ key _ _ _ hp =>
    obtain rfl : _ = text := hi
    exact Roster.get?_erase_of_ne roster fun he => hne (he ▸ hp)
  | asks _ key _ _ hp =>
    obtain rfl : _ = text := hi
    exact Roster.get?_erase_of_ne roster fun he => hne (he ▸ hp)
  | replaces _ key _ _ _ _ hp =>
    obtain rfl : _ = text := hi
    exact Roster.get?_erase_of_ne roster fun he => hne (he ▸ hp)
  | builds key attempt =>
    exact Roster.get?_insert_of_ne roster _ fun he => hne (he ▸ hi.1)
  | _ => rfl

theorem Moves.meant (hm : work.Moves site roster next roster' result)
    (hi : work.Intends read roster text) (h : Meant read roster) :
    Meant ((work.reading? site).toList ++ read) roster' := by
  cases hm with
  | refused other fault hp => simpa [reading?, hp] using h
  | absent other key hp =>
    rw [reading?_fresh hp]
    exact h.erase key _
  | stops other key _ _ _ hp =>
    rw [reading?_fresh hp]
    exact h.erase key _
  | keeps other key reference handle hp hw hg hcurrent =>
    have hf : handle.fingerprint = reference.fingerprint := by
      simp only [Handle.isCurrent, Bool.and_eq_true, decide_eq_true_eq] at hcurrent
      exact hcurrent.1
    rw [reading?_fresh hp, hw]
    exact h.keep hg hf
  | asks other key _ _ hp =>
    rw [reading?_fresh hp]
    exact h.erase key _
  | replaces other key _ _ _ _ hp =>
    rw [reading?_fresh hp]
    exact h.erase key _
  | builds key attempt =>
    obtain ⟨-, -, reference, hl, hf⟩ := hi
    exact h.insert hl hf
  | _ => exact h

theorem Moves.intends {work' : Reconciling}
    (hm : work.Moves site roster next roster' (.inl work')) (hi : work.Intends read roster text) :
    work'.Intends ((work.reading? site).toList ++ read) roster' text := by
  cases hm with
  | stops other key _ _ _ hp =>
    obtain rfl : other = text := hi
    exact ⟨key, hp, Roster.get?_erase_self roster key⟩
  | asks other key addon reference hp ha hd =>
    obtain rfl : other = text := hi
    have hw : site.hub.wanted key = some reference := by simp [Hub.wanted, ha, hd]
    rw [reading?_fresh hp, hw]
    exact ⟨hp, Roster.get?_erase_self roster key, reference, by simp, rfl⟩
  | replaces other key addon reference _ _ hp ha hd =>
    obtain rfl : other = text := hi
    have hw : site.hub.wanted key = some reference := by simp [Hub.wanted, ha, hd]
    rw [reading?_fresh hp, hw]
    exact ⟨hp, Roster.get?_erase_self roster key, by simp⟩
  | replaced key addon reference =>
    obtain ⟨hp, hg, hl⟩ := hi
    exact ⟨hp, hg, reference, hl, rfl⟩
  | waits => exact hi

/-- A call that waits has its key out of the roster. -/
theorem Intends.absent (hi : work.Intends read roster text) (hs : work.IsSuspended)
    (hp : AddonKey.parse text = .ok key) : roster.get? key = none := by
  cases work with
  | fresh other => exact absurd rfl (hs other)
  | stopping settling =>
    obtain ⟨own, hown, hg⟩ := hi
    rw [hp] at hown
    cases hown
    exact hg
  | replacing own _ _ _ =>
    obtain ⟨hown, hg, -⟩ := hi
    rw [hp] at hown
    cases hown
    exact hg
  | opening own _ =>
    obtain ⟨hown, hg, -⟩ := hi
    rw [hp] at hown
    cases hown
    exact hg

/-- A call that fails leaves its key out of the roster. -/
theorem Moves.failed {fault : Fault}
    (hm : work.Moves site roster next roster' (.inr (.failed fault)))
    (hi : work.Intends read roster text) (hp : AddonKey.parse text = .ok key) :
    roster'.get? key = none := by
  cases hm with
  | refused other _ hrefused =>
    obtain rfl : other = text := hi
    rw [hp] at hrefused
    cases hrefused
  | fails own attempt => exact hi.absent (by simp [IsSuspended]) hp

theorem Calls.intends {call : Option (String × Reconciling)} (h : Calls read roster call) :
    Meant read roster ∧ ∀ text work, call = some (text, work) →
      work.Intends read roster text := by
  induction h with
  | start => exact ⟨by simp [Meant, Roster.get?], by simp⟩
  | calls read roster text h ih =>
    refine ⟨ih.1, fun other work he => ?_⟩
    cases he
    exact rfl
  | goesOn read roster roster' text work work' site next h hstep ih =>
    have hm := step_moves hstep
    have hi := ih.2 text work rfl
    refine ⟨hm.meant hi ih.1, fun other call he => ?_⟩
    cases he
    exact hm.intends hi
  | ends read roster roster' text work site next verdict h hstep ih =>
    exact ⟨(step_moves hstep).meant (ih.2 text work rfl) ih.1, by simp⟩
  | drops read roster text work h ih => exact ⟨ih.1, by simp⟩

/-- At every point between two steps, of whatever calls and however many are dropped: what is
registered for a key is for the reference that the latest call for it has read; a call that waits or
has failed leaves nothing registered for its key, so dropping it does neither; and a step touches no
other key. -/
theorem registered_as_intended {call : Option (String × Reconciling)}
    (h : Calls read roster call) :
    (∀ key handle, roster.get? key = some handle → ∃ reference,
      read.lookup key = some (some reference) ∧ handle.fingerprint = reference.fingerprint) ∧
    ∀ text work, call = some (text, work) →
      (∀ key, work.IsSuspended → AddonKey.parse text = .ok key →
        Calls read roster none ∧ roster.get? key = none) ∧
      ∀ site next roster' result, work.step roster site = some (next, roster', result) →
        (∀ key fault, AddonKey.parse text = .ok key → result = .inr (.failed fault) →
          roster'.get? key = none) ∧
        ∀ other, AddonKey.parse text ≠ .ok other → roster'.get? other = roster.get? other := by
  obtain ⟨hmeant, hcall⟩ := h.intends
  refine ⟨hmeant, fun text work he => ?_⟩
  have hi := hcall text work he
  refine ⟨fun key hs hp => ⟨?_, hi.absent hs hp⟩, fun site next roster' result hstep => ?_⟩
  · rw [he] at h
    exact h.drops read roster text work
  · have hm := step_moves hstep
    refine ⟨fun key fault hp hr => ?_, fun other hne => hm.get?_of_ne hi hne⟩
    rw [hr] at hm
    exact hm.failed hi hp

end

/-- So many steps of the call under way, on a site that stays as it is. -/
def carry (site : Site) : Nat →
    List (AddonKey × Option Reference) × Roster × Option (String × Reconciling) →
      Option (List (AddonKey × Option Reference) × Roster × Option (String × Reconciling))
  | 0, state => some state
  | _ + 1, (_, _, none) => none
  | steps + 1, (read, roster, some (text, work)) =>
    match work.step roster site with
    | some (_, roster', .inl work') =>
      carry site steps ((work.reading? site).toList ++ read, roster', some (text, work'))
    | some (_, roster', .inr _) =>
      carry site steps ((work.reading? site).toList ++ read, roster', none)
    | none => none

theorem Calls.carry {site : Site} {steps : Nat} {read read' : List (AddonKey × Option Reference)}
    {roster roster' : Roster} {call call' : Option (String × Reconciling)}
    (h : Calls read roster call)
    (hc : Reconciling.carry site steps (read, roster, call) = some (read', roster', call')) :
    Calls read' roster' call' := by
  induction steps generalizing read roster call with
  | zero =>
    cases hc
    exact h
  | succ steps ih =>
    cases call with
    | none => simp [Reconciling.carry] at hc
    | some call =>
      obtain ⟨text, work⟩ := call
      simp only [Reconciling.carry] at hc
      split at hc
      next next after work' hstep =>
        exact ih (h.goesOn read roster after text work work' site next hstep) hc
      next next after verdict hstep =>
        exact ih (h.ends read roster after text work site next verdict hstep) hc
      next => cases hc

/-- A site where the subscription for the first addon is opened. -/
def granting : Site where
  hub := { addons := [Supervision.specimen "a" "x"] }

theorem registered_as_intended_first :
    ∃ (read : List (AddonKey × Option Reference)) (roster : Roster) (handle : Handle)
      (reference : Reference), Calls read roster none ∧
        roster.get? ⟨"ns", "a"⟩ = some handle ∧
        read.lookup ⟨"ns", "a"⟩ = some (some reference) ∧
        handle.fingerprint = reference.fingerprint := by
  have hcomputed : ((carry granting 2 ([], {}, some ("ns/a", .fresh "ns/a"))).any fun state =>
      state.2.2.isNone && (state.2.1.get? ⟨"ns", "a"⟩).isSome) = true := by decide +kernel
  obtain ⟨⟨read, roster, call⟩, hcarry, hp⟩ := (Option.any_eq_true ..).mp hcomputed
  simp only [Bool.and_eq_true, Option.isNone_iff_eq_none, Option.isSome_iff_exists] at hp
  obtain ⟨rfl, handle, hg⟩ := hp
  have hcalls : Calls read roster none := (Calls.start.calls [] {} "ns/a").carry hcarry
  obtain ⟨hmeant, -⟩ := registered_as_intended hcalls
  obtain ⟨reference, hl, hf⟩ := hmeant _ handle hg
  exact ⟨read, roster, handle, reference, hcalls, hg, hl, hf⟩

end Reconciling

/-- The reconciliation under way at a desk, with the text it is for. -/
def DeskPhase.call? : DeskPhase → Option (String × Reconciling)
  | .reconciling text work _ => some (text, work)
  | _ => none

/-- The desk works through keys or waits for them. -/
def DeskPhase.isAtWork : DeskPhase → Bool
  | .idle => true
  | .working _ => true
  | .reconciling _ _ _ => true
  | _ => false

/-- The roster of a desk that is at work has come of calls, one at a time. -/
def Desk.IsCalling (desk : Desk) : Prop :=
  desk.phase.isAtWork = true → ∃ read, Reconciling.Calls read desk.roster desk.phase.call?

theorem Desk.IsCalling.reconciles {desk desk' : Desk} {isSealed : Bool} {site site' : Site}
    {text : String} {work : Reconciling} {rest : List String} (h : desk.IsCalling)
    (hphase : desk.phase = .reconciling text work rest)
    (hstep : desk.step isSealed site = some (site', desk')) : desk'.IsCalling := by
  obtain ⟨read, hcalls⟩ := h (by rw [hphase]; rfl)
  rw [hphase] at hcalls
  simp only [step, hphase] at hstep
  split at hstep
  next =>
    cases hstep
    exact fun _ => ⟨read, hcalls.drops read desk.roster text work⟩
  next =>
    obtain ⟨⟨after, roster, result⟩, hwork, hstep⟩ := Option.map_eq_some_iff.mp hstep
    cases result with
    | inl work' =>
      cases hstep
      exact fun _ => ⟨_, hcalls.goesOn read desk.roster roster text work work' site _ hwork⟩
    | inr verdict =>
      have hends := hcalls.ends read desk.roster roster text work site after verdict hwork
      have hc := conclude_concludes { desk with roster := roster, phase := .working rest } text
        after verdict
      dsimp only at hstep
      rw [hstep] at hc
      dsimp only at hc
      cases hc with
      | forgets _ _ _ _ _ _ _ _ hf =>
        obtain ⟨alarms, rfl, -⟩ := forget_eq hf
        exact fun _ => ⟨_, hends⟩
      | retries _ _ _ hr =>
        obtain ⟨id, alarms, rfl, -⟩ := retryLater_eq hr
        exact fun _ => ⟨_, hends⟩
      | _ => exact fun hup => by cases hup

theorem Desk.IsCalling.step {desk desk' : Desk} {isSealed : Bool} {site site' : Site}
    (h : desk.IsCalling) (hstep : desk.step isSealed site = some (site', desk')) :
    desk'.IsCalling := by
  cases step_moves hstep with
  | closes => exact fun hup => by cases hup
  | wakes alarm alarms hphase =>
    rw [IsCalling, hphase] at h
    exact fun _ => h rfl
  | takes key rest alarms hphase =>
    rw [IsCalling, hphase] at h
    exact fun _ => h rfl
  | looks rest alarms hphase =>
    rw [IsCalling, hphase] at h
    exact fun _ => h rfl
  | turns alarms hphase => exact h
  | rests hphase =>
    rw [IsCalling, hphase] at h
    exact fun _ => h rfl
  | begins key rest hphase =>
    rw [IsCalling, hphase] at h
    obtain ⟨read, hcalls⟩ := h rfl
    exact fun _ => ⟨read, hcalls.calls read desk.roster key⟩
  | drops hh hphase =>
    rcases hphase with ⟨keys, hphase⟩ | ⟨key, work, rest, hphase⟩
    · rw [IsCalling, hphase] at h
      exact fun _ => h rfl
    · exact h.reconciles hphase hstep
  | goesOn key work work' rest next roster hphase => exact h.reconciles hphase hstep
  | concludes key work rest next after roster verdict desk' hphase =>
    exact h.reconciles hphase hstep
  | settles => exact fun hup => by cases hup
  | finishes => exact fun hup => by cases hup

/-- The rosters of a supervision come of such calls. -/
theorem Supervision.Reached.calling {w : Surroundings} {s : Supervision} (h : s.Reached w) :
    ∀ desk ∈ s.desks, desk.IsCalling := by
  induction h with
  | start s hf => simp [hf.desks]
  | next s s' hr hm ih =>
    cases hm with
    | task t _ hstep =>
      cases t with
      | child i =>
        obtain ⟨site, -, rfl⟩ := stepChild_cases hstep
        exact ih
      | desk i =>
        obtain ⟨old, new, site, hold, hdesk, rfl⟩ := step_of_stepDesk hstep
        intro desk hd
        rcases List.mem_or_eq_of_mem_set hd with hkept | rfl
        · exact ih desk hkept
        · exact (ih old (List.mem_of_getElem? hold)).step hdesk
      | lead =>
        exact (stepLead_moves hstep).forall_desks (fun _ _ _ => ⟨[], .start⟩)
          (fun _ _ hcalling => hcalling) ih
    | hub new ha => exact ih
    | time moment ht => exact ih
    | halt => exact ih

end AddonWatch

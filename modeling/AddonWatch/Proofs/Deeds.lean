import AddonWatch.Proofs.Aiming

namespace AddonWatch

/-- What a desk is seen to do: it takes work out of its inbox, it is through with what it took up,
or the reconciliation of a text ends, with the watcher registered for it then if that lives. -/
inductive Deed where
  | took (desk : Nat)
  | rested (desk : Nat)
  | ended (desk : Nat) (text : String) (verdict : Verdict) (kept : Option Handle)
deriving DecidableEq

namespace Deed

def desk : Deed → Nat
  | took desk => desk
  | rested desk => desk
  | ended desk _ _ _ => desk

/-- What a reconciliation of that text at that desk has come to. -/
def kept? (i : Nat) (text : String) : Deed → Option (Option Handle)
  | ended desk other _ kept => if desk = i ∧ other = text then some kept else none
  | _ => none

/-- What the last reconciliation of that text at that desk has come to; the latest deed is the
first. -/
def latest (i : Nat) (text : String) (log : List Deed) : Option (Option Handle) :=
  log.findSome? (kept? i text)

/-- The desk was through with what it had taken up, after it had taken so many works. -/
def Through (i count : Nat) (log : List Deed) : Prop :=
  ∃ later earlier, log = later ++ .rested i :: earlier ∧ count ≤ earlier.count (.took i)

theorem latest_cons {i : Nat} {text : String} {deed : Deed} (log : List Deed)
    (h : deed.kept? i text = none) : latest i text (deed :: log) = latest i text log := by
  simp [latest, h]

theorem latest_ended (i : Nat) (text : String) (verdict : Verdict) (kept : Option Handle)
    (log : List Deed) : latest i text (.ended i text verdict kept :: log) = some kept := by
  simp [latest, kept?]

theorem Through.of_cons {i count : Nat} {deed : Deed} {log : List Deed}
    (h : Through i count (deed :: log)) :
    deed = .rested i ∧ count ≤ log.count (.took i) ∨ Through i count log := by
  obtain ⟨later, earlier, he, hcount⟩ := h
  cases later with
  | nil =>
    obtain ⟨rfl, rfl⟩ := List.cons.inj he
    exact .inl ⟨rfl, hcount⟩
  | cons first later =>
    obtain ⟨rfl, rfl⟩ := List.cons.inj he
    exact .inr ⟨later, earlier, rfl, hcount⟩

end Deed

/-- The texts that a desk has taken up and not begun with. -/
def DeskPhase.ahead : DeskPhase → List String
  | .working keys => keys
  | .reconciling _ _ rest => rest
  | _ => []

namespace Desk

/-- The watcher registered for the key of that text, if it lives. -/
def kept (desk : Desk) (site : Site) (text : String) : Option Handle :=
  match AddonKey.parse text with
  | .ok key => (desk.roster.get? key).filter (·.isLive site)
  | .error _ => none

/-- What can be seen of a step of the desk of that number. -/
def deed? (i : Nat) (desk : Desk) (site : Site) (desk' : Desk) (site' : Site) : Option Deed :=
  match desk.phase with
  | .idle => if desk'.inbox.length < desk.inbox.length then some (.took i) else none
  | .working [] => some (.rested i)
  | .reconciling _ _ _ =>
    (desk.conclusion? site).map fun c => .ended i c.key c.verdict (desk'.kept site' c.key)
  | _ => none

theorem desk_of_deed? {i : Nat} {desk desk' : Desk} {site site' : Site} {deed : Deed}
    (h : desk.deed? i site desk' site' = some deed) : deed.desk = i := by
  unfold deed? at h
  split at h
  next =>
    split at h
    · cases h
      rfl
    · cases h
  next =>
    cases h
    rfl
  next =>
    obtain ⟨c, -, rfl⟩ := Option.map_eq_some_iff.mp h
    rfl
  next => cases h

/-- How a reconciliation goes on with a step of its desk, or ends with it. -/
theorem step_reconciling {desk desk' : Desk} {isSealed : Bool} {site site' : Site} {text : String}
    {work : Reconciling} {rest : List String} (hphase : desk.phase = .reconciling text work rest)
    (hh : site.halted = false) (h : desk.step isSealed site = some (site', desk')) :
    (∃ work' roster, work.Moves site desk.roster site' roster (.inl work') ∧
      desk' = { desk with roster := roster, phase := .reconciling text work' rest } ∧
      desk.conclusion? site = none) ∨
    ∃ after roster verdict, work.Moves site desk.roster after roster (.inr verdict) ∧
      ({ desk with roster := roster, phase := .working rest } : Desk).conclude text after verdict =
        (site', desk') ∧
      desk.conclusion? site = some ⟨text, verdict, site.now⟩ := by
  simp only [step, hphase, hh, Bool.false_eq_true, if_false] at h
  obtain ⟨⟨after, roster, result⟩, hstep, h⟩ := Option.map_eq_some_iff.mp h
  have hm := Reconciling.step_moves hstep
  cases result with
  | inl work' =>
    cases h
    exact .inl ⟨work', roster, hm, rfl, by simp [conclusion?, hphase, hh, hstep]⟩
  | inr verdict =>
    exact .inr ⟨after, roster, verdict, hm, h, by simp [conclusion?, hphase, hh, hstep]⟩

/-- Only a failure that may go better the next time, or a call that breaks down, can break a desk
down. -/
theorem conclude_stands {desk next : Desk} {text : String} {site after : Site} {verdict : Verdict}
    (hk : desk.KeepsRetries) (hc : desk.conclude text site verdict = (after, next))
    (hv : verdict = .done ∨ ∃ fault, verdict = .failed fault ∧ fault.isRetryable = false) :
    next.inbox = desk.inbox ∧ next.roster = desk.roster ∧ next.phase = desk.phase ∧
      ∀ handle : Handle, handle.isLive after = handle.isLive site := by
  obtain ⟨kept, hf⟩ := Option.ne_none_iff_exists'.mp (hk.forget_ne_none text)
  obtain ⟨alarms, he, -⟩ := forget_eq hf
  rcases hv with rfl | ⟨fault, rfl, hretry⟩
  · simp only [conclude, hf, Option.getD_some] at hc
    cases hc
    subst he
    exact ⟨rfl, rfl, rfl, fun _ => rfl⟩
  · simp only [conclude, hretry, hf, Option.getD_some, Bool.false_eq_true, if_false] at hc
    cases hc
    subst he
    exact ⟨rfl, rfl, rfl, fun _ => rfl⟩

/-- The registry is in line at the key, through the watcher that its last reconciliation came to. -/
def IsSettled (desk : Desk) (log : List Deed) (i : Nat) (key : AddonKey) :
    Option Fingerprint → Prop
  | none => desk.roster.get? key = none
  | some aim => ∃ handle, desk.roster.get? key = some handle ∧ handle.fingerprint = aim ∧
    Deed.latest i key.text log = some (some handle)

/-- The reconciliation of the key that is under way aims where the addon points; without one the
registry is in line at the key. -/
structure OnCourse (desk : Desk) (log : List Deed) (i : Nat) (key : AddonKey)
    (aim : Option Fingerprint) : Prop where
  aims : ∀ work rest, desk.phase = .reconciling key.text work rest →
    work.Aims desk.roster key aim
  settled : (∀ work rest, desk.phase ≠ .reconciling key.text work rest) →
    desk.IsSettled log i key aim

/-- A watcher that is registered for the key is on the object that the addon points at. -/
def IsFair (desk : Desk) (key : AddonKey) (aim : Option Fingerprint) : Prop :=
  ∀ handle, desk.roster.get? key = some handle → aim = some handle.fingerprint

/-- The key is still to be reconciled: it is asked for in what is to be taken, or it was taken up;
or the addon points nowhere, and the desk is to look at its own watchers. -/
def Comes (desk : Desk) (todo : List Work) (key : AddonKey) (aim : Option Fingerprint) : Prop :=
  .sync key.text ∈ todo ∨ key.text ∈ desk.phase.ahead ∨ aim = none ∧ .resync ∈ todo

section

variable {desk desk' : Desk} {log : List Deed} {i : Nat} {key : AddonKey}
  {aim : Option Fingerprint} {site site' : Site} {mine : String → Prop}

theorem IsSettled.congr {log' : List Deed} (h : desk.IsSettled log i key aim)
    (hr : desk'.roster.get? key = desk.roster.get? key)
    (hl : Deed.latest i key.text log' = Deed.latest i key.text log) :
    desk'.IsSettled log' i key aim := by
  cases aim with
  | none => exact hr.trans h
  | some aim =>
    obtain ⟨handle, hg, hf, hlatest⟩ := h
    exact ⟨handle, hr.trans hg, hf, hl.trans hlatest⟩

theorem IsSettled.isFair (h : desk.IsSettled log i key aim) : desk.IsFair key aim := by
  intro handle hg
  cases aim with
  | none =>
    rw [show desk.roster.get? key = none from h] at hg
    cases hg
  | some aim =>
    obtain ⟨other, ho, rfl, -⟩ := h
    cases hg.symm.trans ho
    rfl

/-- A step that is not about the key keeps the desk on course. -/
theorem OnCourse.keeps {log' : List Deed} (h : desk.OnCourse log i key aim)
    (hbefore : ∀ work rest, desk.phase ≠ .reconciling key.text work rest)
    (hafter : ∀ work rest, desk'.phase ≠ .reconciling key.text work rest)
    (hr : desk'.roster.get? key = desk.roster.get? key)
    (hl : Deed.latest i key.text log' = Deed.latest i key.text log) :
    desk'.OnCourse log' i key aim :=
  ⟨fun work rest hphase => absurd hphase (hafter work rest),
    fun _ => (h.settled hbefore).congr hr hl⟩

/-- A reconciliation of the key that succeeds leaves the desk settled. -/
theorem settled_of_conclude {work : Reconciling} {rest : List String} {after : Site}
    {roster : Roster} (ho : desk.Orderly site mine) (hh : site.halted = false)
    (hk : key.IsWellFormed) (hp : site.hub.pointed key = aim)
    (hphase : desk.phase = .reconciling key.text work rest)
    (ha : work.Aims desk.roster key aim)
    (hm : work.Moves site desk.roster after roster (.inr .done))
    (hc : ({ desk with roster := roster, phase := .working rest } : Desk).conclude key.text after
      .done = (site', desk')) :
    desk'.IsSettled (.ended i key.text .done (desk'.kept site' key.text) :: log) i key aim := by
  have hminds := hm.minds hk (ho.work _ _ _ hphase) hh hp ha
  obtain ⟨-, hroster, -, hlive⟩ := conclude_stands (ho.retries.working roster rest) hc (.inl rfl)
  cases aim with
  | none => exact (congrArg (Roster.get? · key) hroster).trans hminds
  | some aim =>
    obtain ⟨handle, hg, hcurrent⟩ := hminds
    simp only [Handle.isCurrent, Bool.and_eq_true, decide_eq_true_eq] at hcurrent
    have hget : desk'.roster.get? key = some handle := hroster ▸ hg
    refine ⟨handle, hget, hcurrent.1, ?_⟩
    rw [Deed.latest_ended, kept, AddonKey.parse_eq_ok_iff.mpr ⟨rfl, hk⟩]
    simp [hget, hlive, hcurrent.2]

/-- Every reconciliation of a text that can be read as a key succeeds. -/
def Succeeds (desk : Desk) (site : Site) : Prop :=
  ∀ text verdict, desk.conclusion? site = some ⟨text, verdict, site.now⟩ →
    (∃ key, AddonKey.parse text = .ok key) → verdict = .done

/-- A reconciliation whose text cannot be read fails for good. -/
theorem verdict_of_succeeds {text : String} {work : Reconciling} {rest : List String}
    {after : Site} {roster : Roster} {verdict : Verdict} (hs : desk.Succeeds site)
    (hreads : desk.IsReading) (hphase : desk.phase = .reconciling text work rest)
    (hm : work.Moves site desk.roster after roster (.inr verdict))
    (hc : desk.conclusion? site = some ⟨text, verdict, site.now⟩) :
    verdict = .done ∨ ∃ fault, verdict = .failed fault ∧ fault.isRetryable = false := by
  by_cases hp : ∃ key, AddonKey.parse text = .ok key
  · exact .inl (hs text verdict hc hp)
  · have hread := hreads text work rest hphase
    cases verdict with
    | done => exact .inl rfl
    | failed fault =>
      refine .inr ⟨fault, rfl, ?_⟩
      cases hretry : fault.isRetryable with
      | false => rfl
      | true => exact absurd ((hm.fault_reads hread).mp hretry) hp
    | crashed =>
      cases hm with
      | crashes => exact absurd hread hp

/-- What a desk that takes up work and stands does with a step, as far as one key and its registry
are concerned. -/
inductive Steps (desk : Desk) (site : Site) (key : AddonKey) (site' : Site) (desk' : Desk) : Prop
  | apart (hbefore : ∀ work rest, desk.phase ≠ .reconciling key.text work rest)
      (hafter : ∀ work rest, desk'.phase ≠ .reconciling key.text work rest)
      (hr : desk'.roster.get? key = desk.roster.get? key)
      (hc : ∀ ended, desk.conclusion? site = some ended → ended.key ≠ key.text)
  | begins (rest : List String) (hbefore : desk.phase = .working (key.text :: rest))
      (hafter : desk' = { desk with phase := .reconciling key.text (.fresh key.text) rest })
  | goesOn (work work' : Reconciling) (rest : List String) (roster : Roster)
      (hbefore : desk.phase = .reconciling key.text work rest)
      (hm : work.Moves site desk.roster site' roster (.inl work'))
      (hafter : desk' = { desk with
        roster := roster, phase := .reconciling key.text work' rest })
      (hc : desk.conclusion? site = none)
  | ends (work : Reconciling) (rest : List String) (after : Site) (roster : Roster)
      (hbefore : desk.phase = .reconciling key.text work rest)
      (hm : work.Moves site desk.roster after roster (.inr .done))
      (hend : ({ desk with roster := roster, phase := .working rest } : Desk).conclude key.text
        after .done = (site', desk'))
      (hc : desk.conclusion? site = some ⟨key.text, .done, site.now⟩)

variable {isSealed : Bool}

theorem steps_of_reconciling {text : String} {work : Reconciling} {rest : List String}
    (h : desk.step isSealed site = some (site', desk')) (ho : desk.Orderly site mine)
    (hreads : desk.IsReading) (hh : site.halted = false) (hs : desk.Succeeds site)
    (hk : key.IsWellFormed) (hphase : desk.phase = .reconciling text work rest) :
    desk.Steps site key site' desk' := by
  have hfit := ho.work text work rest hphase
  rcases step_reconciling hphase hh h with ⟨work', roster, hm, he, hc⟩ |
    ⟨after, roster, verdict, hm, hend, hc⟩
  · by_cases ht : text = key.text
    · subst ht
      exact .goesOn work work' rest roster hphase hm he hc
    · have hr := (hm.other hfit (fun e he => (ho.entries e he).2) ht).1
      subst he
      exact .apart (by simp [hphase, ht]) (by simp [ht]) hr (by simp [hc])
  · have hv := verdict_of_succeeds hs hreads hphase hm hc
    obtain ⟨-, hroster, hphase', -⟩ := conclude_stands (ho.retries.working roster rest) hend hv
    by_cases ht : text = key.text
    · subst ht
      obtain rfl := hs key.text verdict hc ⟨key, AddonKey.parse_eq_ok_iff.mpr ⟨rfl, hk⟩⟩
      exact .ends work rest after roster hphase hm hend hc
    · have hr := (hm.other hfit (fun e he => (ho.entries e he).2) ht).1
      refine .apart (by simp [hphase, ht]) (by simp [hphase']) ?_ (by simp [hc, ht])
      exact (congrArg (Roster.get? · key) hroster).trans hr

theorem step_steps (h : desk.step false site = some (site', desk')) (ho : desk.Orderly site mine)
    (hreads : desk.IsReading) (hh : site.halted = false) (hopen : desk.IsOpen)
    (hs : desk.Succeeds site) (hk : key.IsWellFormed) : desk.Steps site key site' desk' := by
  by_cases hat : ∃ text work rest, desk.phase = .reconciling text work rest
  · obtain ⟨text, work, rest, hphase⟩ := hat
    exact steps_of_reconciling h ho hreads hh hs hk hphase
  · have hnone : desk.conclusion? site = none := by
      unfold conclusion?
      split
      next text work rest hphase => exact absurd ⟨text, work, rest, hphase⟩ hat
      next => rfl
    have hbefore : ∀ work rest, desk.phase ≠ .reconciling key.text work rest :=
      fun work rest hphase => hat ⟨_, work, rest, hphase⟩
    have hapart : (∀ work rest, desk'.phase ≠ .reconciling key.text work rest) →
        desk'.roster = desk.roster → desk.Steps site key site' desk' := fun hafter hr =>
      .apart hbefore hafter (by rw [hr]) (by simp [hnone])
    cases step_moves h with
    | closes _ _ hend => simp [hh] at hend
    | wakes => exact hapart (by simp [wake]) rfl
    | takes => exact hapart (by simp) rfl
    | looks => exact hapart (by simp) rfl
    | turns _ hphase => exact hapart (by simp [hphase]) rfl
    | rests => exact hapart (by simp) rfl
    | begins text rest hphase =>
      by_cases ht : text = key.text
      · subst ht
        exact .begins rest hphase rfl
      · exact hapart (by simp [ht]) rfl
    | drops hhalted => simp [hh] at hhalted
    | goesOn text work _ rest _ _ hphase => exact absurd ⟨text, work, rest, hphase⟩ hat
    | concludes text work rest _ _ _ _ _ hphase => exact absurd ⟨text, work, rest, hphase⟩ hat
    | settles closing _ _ hphase => exact absurd hphase (hopen.1 closing)
    | finishes closing _ hphase => exact absurd hphase (hopen.1 closing)

/-- The texts that a desk takes up with a work. -/
def takenUp (desk : Desk) : Work → List String
  | .sync text => [text]
  | .resync => desk.roster.keys.map AddonKey.text

/-- With a step a desk takes the first work of its inbox, or leaves its inbox alone and loses no
text that it took up but the one it begins with. -/
theorem step_takes (i : Nat) (h : desk.step false site = some (site', desk'))
    (ho : desk.Orderly site mine) (hreads : desk.IsReading) (hh : site.halted = false)
    (hopen : desk.IsOpen) (hs : desk.Succeeds site) :
    (∃ work texts, desk.phase = .idle ∧ desk.inbox = work :: desk'.inbox ∧
      desk'.phase = .working texts ∧ texts.Perm (desk.takenUp work) ∧
      desk'.roster = desk.roster ∧ desk.deed? i site desk' site' = some (.took i)) ∨
    (desk'.isDown = false ∧ desk'.inbox = desk.inbox ∧
      desk.deed? i site desk' site' ≠ some (.took i) ∧
      ∀ text ∈ desk.phase.ahead, text ∈ desk'.phase.ahead ∨
        ∃ rest, desk.phase = .working (text :: rest)) := by
  by_cases hat : ∃ text work rest, desk.phase = .reconciling text work rest
  · obtain ⟨text, work, rest, hphase⟩ := hat
    right
    have hdeed : desk.deed? i site desk' site' ≠ some (.took i) := by
      simp [deed?, hphase]
    rcases step_reconciling hphase hh h with ⟨work', roster, hm, rfl, hc⟩ |
      ⟨after, roster, verdict, hm, hend, hc⟩
    · exact ⟨rfl, rfl, hdeed,
        fun other ho => .inl (by simpa [DeskPhase.ahead, hphase] using ho)⟩
    · have hv := verdict_of_succeeds hs hreads hphase hm hc
      obtain ⟨hinbox, -, hphase', -⟩ :=
        conclude_stands (ho.retries.working roster rest) hend hv
      refine ⟨by simp [isDown, hphase'], hinbox, hdeed, fun other hother => .inl ?_⟩
      rw [hphase']
      simpa [DeskPhase.ahead, hphase] using hother
  · cases step_moves h with
    | closes _ _ hend => simp [hh] at hend
    | wakes alarm alarms hphase => exact .inr ⟨rfl, rfl, by simp [deed?, hphase, wake],
        by simp [hphase, DeskPhase.ahead]⟩
    | takes text rest alarms hphase _ _ hi =>
      exact .inl ⟨.sync text, [text], hphase, hi, rfl, .refl _, rfl,
        by simp [deed?, hphase, hi]⟩
    | looks rest alarms hphase _ _ hi keys hkeys =>
      exact .inl ⟨.resync, keys.map AddonKey.text, hphase, hi, rfl, hkeys.map _, rfl,
        by simp [deed?, hphase, hi]⟩
    | turns alarms hphase => exact .inr ⟨by simp [isDown, hphase], rfl, by simp [deed?, hphase],
        by simp [hphase, DeskPhase.ahead]⟩
    | rests hphase => exact .inr ⟨rfl, rfl, by simp [deed?, hphase],
        by simp [hphase, DeskPhase.ahead]⟩
    | begins text rest hphase =>
      refine .inr ⟨rfl, rfl, by simp [deed?, hphase], fun other hother => ?_⟩
      rw [hphase] at hother
      rcases List.mem_cons.mp hother with rfl | hrest
      · exact .inr ⟨rest, hphase⟩
      · exact .inl hrest
    | drops hhalted => simp [hh] at hhalted
    | goesOn text work _ rest _ _ hphase => exact absurd ⟨text, work, rest, hphase⟩ hat
    | concludes text work rest _ _ _ _ _ hphase => exact absurd ⟨text, work, rest, hphase⟩ hat
    | settles closing _ _ hphase => exact absurd hphase (hopen.1 closing)
    | finishes closing _ hphase => exact absurd hphase (hopen.1 closing)

namespace Steps

/-- The log behind a step, with what can be seen of it. -/
theorem latest_of_apart (hc : ∀ ended, desk.conclusion? site = some ended → ended.key ≠ key.text) :
    Deed.latest i key.text ((desk.deed? i site desk' site').toList ++ log) =
      Deed.latest i key.text log := by
  cases hdeed : desk.deed? i site desk' site' with
  | none => rfl
  | some deed =>
    refine Deed.latest_cons log ?_
    unfold deed? at hdeed
    split at hdeed
    next =>
      split at hdeed
      · cases hdeed
        rfl
      · cases hdeed
    next =>
      cases hdeed
      rfl
    next =>
      obtain ⟨ended, he, rfl⟩ := Option.map_eq_some_iff.mp hdeed
      simp [Deed.kept?, hc ended he]
    next => cases hdeed

theorem onCourse (h : desk.Steps site key site' desk') (ho : desk.Orderly site mine)
    (hh : site.halted = false) (hk : key.IsWellFormed) (hp : site.hub.pointed key = aim)
    (hc : desk.OnCourse log i key aim) :
    desk'.OnCourse ((desk.deed? i site desk' site').toList ++ log) i key aim := by
  cases h with
  | apart hbefore hafter hr hend => exact hc.keeps hbefore hafter hr (latest_of_apart hend)
  | begins rest hbefore hafter =>
    subst hafter
    refine ⟨fun work others hphase => ?_, fun hnot => absurd rfl (hnot _ rest)⟩
    cases hphase
    trivial
  | goesOn work work' rest roster hbefore hm hafter =>
    subst hafter
    refine ⟨fun other others hphase => ?_, fun hnot => absurd rfl (hnot _ rest)⟩
    cases hphase
    exact hm.aims hk (ho.work _ _ _ hbefore) hp (hc.aims work rest hbefore)
  | ends work rest after roster hbefore hm hend hconc =>
    have hdeed : desk.deed? i site desk' site' =
        some (.ended i key.text .done (desk'.kept site' key.text)) := by
      simp [deed?, hbefore, hconc]
    obtain ⟨-, -, hphase', -⟩ := conclude_stands (ho.retries.working roster rest) hend (.inl rfl)
    refine ⟨fun other others hphase => by simp [hphase'] at hphase, fun _ => ?_⟩
    rw [hdeed]
    exact settled_of_conclude ho hh hk hp hbefore (hc.aims work rest hbefore) hm hend

theorem isFair (h : desk.Steps site key site' desk') (ho : desk.Orderly site mine)
    (hh : site.halted = false) (hk : key.IsWellFormed) (hp : site.hub.pointed key = aim)
    (hc : desk.OnCourse log i key aim) (hf : desk.IsFair key aim) : desk'.IsFair key aim := by
  cases h with
  | apart hbefore hafter hr => exact fun handle hg => hf handle (hr ▸ hg)
  | begins rest hbefore hafter =>
    subst hafter
    exact hf
  | goesOn work work' rest roster hbefore hm hafter =>
    subst hafter
    intro handle hg
    rw [hm.get?_of_goesOn hk (ho.work _ _ _ hbefore)] at hg
    cases hg
  | ends work rest after roster hbefore hm hend =>
    have hsettled : desk'.IsSettled (.ended i key.text .done (desk'.kept site' key.text) :: log) i
        key aim :=
      settled_of_conclude ho hh hk hp hbefore (hc.aims work rest hbefore) hm hend
    exact hsettled.isFair

end Steps

end

end Desk

end AddonWatch

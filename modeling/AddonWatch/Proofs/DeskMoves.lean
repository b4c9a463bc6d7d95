import AddonWatch.Proofs.ReconcilingMoves
import AddonWatch.Proofs.Retries

namespace AddonWatch

/-- How a desk takes the outcome of a reconciliation: the retries of the key change, or the desk
breaks down, for want of an alarm or with the call that did. -/
inductive Desk.Concludes (desk : Desk) (key : String) (site : Site) : Verdict → Site → Desk → Prop
  | forgets (verdict : Verdict) (next : Desk) (level : Level) (text : String) (site' : Site)
      (hv : ∀ fault, verdict = .failed fault → fault.isRetryable = false)
      (hc : verdict ≠ .crashed) (hsite : site' = site ∨ site' = site.log level text)
      (hf : desk.forget key = some next) : Concludes desk key site verdict site' next
  | retries (fault : Fault) (next : Desk) (text : String)
      (hr : (desk.retryLater key fault site).2 = .ok next) (hretry : fault.isRetryable = true) :
      Concludes desk key site (.failed fault) (site.log .warn text) next
  | overreaches (fault : Fault) (text message : String)
      (hr : (desk.retryLater key fault site).2 = .error message) :
      Concludes desk key site (.failed fault) (site.log .warn text) (desk.crash message)
  | loses (verdict : Verdict) (level : Level) (text : String) (site' : Site)
      (hsite : site' = site ∨ site' = site.log level text) (hf : desk.forget key = none) :
      Concludes desk key site verdict site' (desk.crash Alarms.missing)
  | breaks : Concludes desk key site .crashed site (desk.crash "injected panic")

theorem Desk.conclude_concludes (desk : Desk) (key : String) (site : Site) (verdict : Verdict) :
    desk.Concludes key site verdict (desk.conclude key site verdict).1
      (desk.conclude key site verdict).2 := by
  cases verdict with
  | done =>
    simp only [conclude]
    cases hf : desk.forget key with
    | none => exact .loses .done .error "" site (.inl rfl) hf
    | some next => exact .forgets .done next .error "" site (by simp) (by simp) (.inl rfl) hf
  | failed fault =>
    simp only [conclude]
    split
    next hretry =>
      obtain ⟨text, ht⟩ := desk.retryLater_site key fault site
      rcases hr : desk.retryLater key fault site with ⟨after, message | next⟩
      · rw [hr] at ht
        exact ht ▸ .overreaches fault text message (congrArg Prod.snd hr)
      · rw [hr] at ht
        exact ht ▸ .retries fault next text (congrArg Prod.snd hr) hretry
    next hretry =>
      have hn : fault.isRetryable = false := by simpa using hretry
      cases hf : desk.forget key with
      | none => exact .loses (.failed fault) .error _ _ (.inr rfl) hf
      | some next =>
        exact .forgets (.failed fault) next .error _ _ (by simp [hn]) (by simp) (.inr rfl) hf
  | crashed => exact .breaks

theorem Desk.isOver_of_isDown {desk : Desk} (h : desk.isDown = true) : desk.isOver = true := by
  unfold isDown at h
  unfold isOver
  split at h
  next hphase => rw [hphase]
  next => cases h

/-- A desk takes the outcome without going anywhere else, or breaks down. -/
theorem Desk.Concludes.phase {desk next : Desk} {key : String} {site after : Site}
    {verdict : Verdict} (h : desk.Concludes key site verdict after next) :
    next.phase = desk.phase ∨ ∃ message, next.phase = .crashed message := by
  cases h with
  | forgets _ _ _ _ _ _ _ _ hf =>
    obtain ⟨alarms, rfl, -⟩ := forget_eq hf
    exact .inl rfl
  | retries _ _ _ hr =>
    obtain ⟨id, alarms, rfl, -⟩ := retryLater_eq hr
    exact .inl rfl
  | _ => exact .inr ⟨_, rfl⟩

/-- What a desk can do next, with the site and the desk behind it. -/
inductive Desk.Moves (desk : Desk) (isSealed : Bool) (site : Site) : Site → Desk → Prop
  | closes (alarms : Alarms) (hphase : desk.phase = .idle)
      (hend : site.halted = true ∨ isSealed = true)
      (hp : alarms = desk.alarms ∨ desk.alarms.pop site.now = (none, alarms)) :
      Moves desk isSealed site
        (Closing.start desk.roster site.settings.cancelGrace site).1
        { desk with
          alarms := alarms
          roster := {}
          phase := .closing (Closing.start desk.roster site.settings.cancelGrace site).2 }
  | wakes (alarm : Alarm) (alarms : Alarms) (hphase : desk.phase = .idle)
      (hh : site.halted = false) (hp : desk.alarms.pop site.now = (some alarm, alarms)) :
      Moves desk isSealed site site (desk.wake alarm alarms)
  | takes (key : String) (rest : List Work) (alarms : Alarms) (hphase : desk.phase = .idle)
      (hh : site.halted = false) (hp : desk.alarms.pop site.now = (none, alarms))
      (hi : desk.inbox = .sync key :: rest) :
      Moves desk isSealed site site
        { desk with alarms := alarms, inbox := rest, phase := .working [key] }
  | looks (rest : List Work) (alarms : Alarms) (hphase : desk.phase = .idle)
      (hh : site.halted = false) (hp : desk.alarms.pop site.now = (none, alarms))
      (hi : desk.inbox = .resync :: rest) (keys : List AddonKey)
      (hkeys : keys.Perm desk.roster.keys) :
      Moves desk isSealed site site
        { desk with
          alarms := alarms
          inbox := rest
          phase := .working (keys.map AddonKey.text) }
  | turns (alarms : Alarms) (hphase : desk.phase = .idle) (hh : site.halted = false)
      (hp : desk.alarms.pop site.now = (none, alarms)) :
      Moves desk isSealed site site { desk with alarms := alarms }
  | rests (hphase : desk.phase = .working []) :
      Moves desk isSealed site site { desk with phase := .idle }
  | begins (key : String) (rest : List String) (hphase : desk.phase = .working (key :: rest))
      (hh : site.halted = false) :
      Moves desk isSealed site site { desk with phase := .reconciling key (.fresh key) rest }
  | drops (hh : site.halted = true)
      (hphase : (∃ keys, desk.phase = .working keys) ∨
        ∃ key work rest, desk.phase = .reconciling key work rest) :
      Moves desk isSealed site site { desk with phase := .idle }
  | goesOn (key : String) (work work' : Reconciling) (rest : List String) (next : Site)
      (roster : Roster) (hphase : desk.phase = .reconciling key work rest)
      (hh : site.halted = false) (hm : work.Moves site desk.roster next roster (.inl work')) :
      Moves desk isSealed site next
        { desk with roster := roster, phase := .reconciling key work' rest }
  | concludes (key : String) (work : Reconciling) (rest : List String) (next after : Site)
      (roster : Roster) (verdict : Verdict) (desk' : Desk)
      (hphase : desk.phase = .reconciling key work rest) (hh : site.halted = false)
      (hm : work.Moves site desk.roster next roster (.inr verdict))
      (hc : ({ desk with roster := roster, phase := .working rest } : Desk).Concludes key next
        verdict after desk') :
      Moves desk isSealed site after desk'
  | settles (closing closing' : Closing) (next : Site) (hphase : desk.phase = .closing closing)
      (hc : closing.step site = some (next, some closing')) :
      Moves desk isSealed site next { desk with phase := .closing closing' }
  | finishes (closing : Closing) (next : Site) (hphase : desk.phase = .closing closing)
      (hc : closing.step site = some (next, none)) :
      Moves desk isSealed site next { desk with phase := .finished, inbox := [] }

namespace Desk

theorem moves_of_takeUp {desk next : Desk} {isSealed : Bool} {site site' : Site}
    (hphase : desk.phase = .idle) (hh : site.halted = false)
    (h : desk.takeUp isSealed site = some (site', next)) :
    desk.Moves isSealed site site' next := by
  unfold takeUp at h
  split at h
  next alarm alarms hp =>
    cases h
    exact .wakes alarm alarms hphase hh hp
  next alarms hp =>
    dsimp only at h
    split at h
    next key rest hi =>
      cases h
      exact .takes key rest alarms hphase hh hp hi
    next rest hi =>
      cases h
      exact .looks rest alarms hphase hh hp hi _ (desk.arrangement.perm site desk.roster)
    next hi =>
      split at h
      next hs =>
        cases h
        exact .closes alarms hphase (.inr hs) (.inr hp)
      next =>
        split at h
        · cases h
        · cases h
          exact .turns alarms hphase hh hp

theorem moves_of_reconciling {desk next : Desk} {isSealed : Bool} {site site' : Site}
    {key : String} {work : Reconciling} {rest : List String}
    (hphase : desk.phase = .reconciling key work rest) (hh : site.halted = false)
    (h : desk.step isSealed site = some (site', next)) : desk.Moves isSealed site site' next := by
  simp only [step, hphase, hh, Bool.false_eq_true, if_false] at h
  obtain ⟨⟨after, roster, result⟩, hstep, h⟩ := Option.map_eq_some_iff.mp h
  have hm := Reconciling.step_moves hstep
  cases result with
  | inl work' =>
    cases h
    exact .goesOn key work work' rest _ roster hphase hh hm
  | inr verdict =>
    have hc := conclude_concludes { desk with roster := roster, phase := .working rest } key after
      verdict
    dsimp only at h
    rw [h] at hc
    exact .concludes key work rest after _ roster verdict _ hphase hh hm hc

theorem step_moves {desk next : Desk} {isSealed : Bool} {site site' : Site}
    (h : desk.step isSealed site = some (site', next)) : desk.Moves isSealed site site' next := by
  cases hphase : desk.phase with
  | idle =>
    simp only [step, hphase] at h
    cases hh : site.halted with
    | true =>
      simp only [hh, if_true] at h
      cases h
      exact .closes desk.alarms hphase (.inl hh) (.inl rfl)
    | false =>
      simp only [hh, Bool.false_eq_true, if_false] at h
      exact moves_of_takeUp hphase hh h
  | working keys =>
    cases keys with
    | nil =>
      simp only [step, hphase] at h
      cases h
      exact .rests hphase
    | cons key rest =>
      simp only [step, hphase] at h
      split at h
      next hh =>
        cases h
        exact .drops hh (.inl ⟨_, hphase⟩)
      next hh =>
        cases h
        exact .begins key rest hphase (by simpa using hh)
  | reconciling key work rest =>
    cases hh : site.halted with
    | true =>
      simp only [step, hphase, hh, if_true] at h
      cases h
      exact .drops hh (.inr ⟨key, work, rest, hphase⟩)
    | false => exact moves_of_reconciling hphase hh h
  | closing closing =>
    simp only [step, hphase] at h
    obtain ⟨⟨after, result⟩, hc, h⟩ := Option.map_eq_some_iff.mp h
    cases result with
    | some closing' =>
      cases h
      exact .settles closing closing' _ hphase hc
    | none =>
      cases h
      exact .finishes closing _ hphase hc
  | finished => simp [step, hphase] at h
  | crashed message => simp [step, hphase] at h

end Desk

end AddonWatch

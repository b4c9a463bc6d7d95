import AddonWatch.Proofs.Delays
import AddonWatch.Proofs.DeskOrder

namespace AddonWatch

/-- The end of one reconciliation at a desk. -/
structure Conclusion where
  key : String
  verdict : Verdict
  time : Nat
deriving DecidableEq, Repr, Inhabited

/-- The times at which the reconciliations of a key have failed in a row in ways that may go better
the next time, the latest first. -/
def failures (key : String) : List Conclusion → List Nat
  | [] => []
  | ended :: log =>
    if ended.key = key then
      match ended.verdict with
      | .failed fault => if fault.isRetryable then ended.time :: failures key log else []
      | _ => []
    else failures key log

theorem failures_of_ne {key : String} {ended : Conclusion} (log : List Conclusion)
    (h : ended.key ≠ key) : failures key (ended :: log) = failures key log := by
  rw [failures, if_neg h]

theorem failures_retryable (key : String) {fault : Fault} (time : Nat) (log : List Conclusion)
    (h : fault.isRetryable = true) :
    failures key (⟨key, .failed fault, time⟩ :: log) = time :: failures key log := by
  rw [failures, if_pos rfl]
  dsimp only
  rw [if_pos h]

theorem failures_over (key : String) {verdict : Verdict} (time : Nat) (log : List Conclusion)
    (h : ∀ fault, verdict = .failed fault → fault.isRetryable = false) :
    failures key (⟨key, verdict, time⟩ :: log) = [] := by
  rw [failures, if_pos rfl]
  cases verdict with
  | failed fault =>
    have hn := h fault rfl
    simp [hn]
  | done => rfl
  | crashed => rfl

/-- A run of failures is under way exactly if the last reconciliation of the key has failed so. -/
theorem failures_ne_nil_iff {key : String} {log : List Conclusion} :
    failures key log ≠ [] ↔ ∃ ended fault, log.find? (·.key = key) = some ended ∧
      ended.verdict = .failed fault ∧ fault.isRetryable = true := by
  induction log with
  | nil => simp [failures]
  | cons ended log ih =>
    by_cases hk : ended.key = key
    · rw [List.find?_cons_of_pos (by simpa using hk), failures, if_pos hk]
      cases hv : ended.verdict with
      | failed fault => by_cases hr : fault.isRetryable = true <;> simp [hv, hr]
      | done => simp [hv]
      | crashed => simp [hv]
    · rw [List.find?_cons_of_neg (by simpa using hk), failures_of_ne log hk]
      exact ih

namespace Desk

/-- The reconciliation that ends with the next step. -/
def conclusion? (desk : Desk) (site : Site) : Option Conclusion :=
  match desk.phase with
  | .reconciling key work _ =>
    if site.halted then none
    else match work.step desk.roster site with
      | some (_, _, .inr verdict) => some ⟨key, verdict, site.now⟩
      | _ => none
  | _ => none

theorem conclusion?_eq_some {desk : Desk} {site : Site} {ended : Conclusion}
    (h : desk.conclusion? site = some ended) : ∃ work rest after roster,
      desk.phase = .reconciling ended.key work rest ∧
      work.step desk.roster site = some (after, roster, .inr ended.verdict) := by
  unfold conclusion? at h
  split at h
  next key work rest hphase =>
    split at h
    next => cases h
    next =>
      split at h
      next after roster verdict hwork =>
        cases h
        exact ⟨work, rest, after, roster, hphase, hwork⟩
      next => cases h
  next => cases h

/-- A desk of its own, the reconciliations that have ended at it, the latest first, whether it has
seen the scope cancelled, and the time. Between two steps work may come in, and anything may happen
to the site. -/
inductive Ran (policy : RetryPolicy) : List Conclusion → Bool → Nat → Desk → Prop
  | start (arrangement : Arrangement) (now : Nat) :
    Ran policy [] false now { arrangement := arrangement, alarms := { start := now } }
  | hears (log : List Conclusion) (halted : Bool) (now : Nat) (desk : Desk) (works : List Work)
      (h : Ran policy log halted now desk) :
      Ran policy log halted now { desk with inbox := desk.inbox ++ works }
  | step (log : List Conclusion) (halted : Bool) (now : Nat) (desk desk' : Desk) (isSealed : Bool)
      (site next : Site) (h : Ran policy log halted now desk) (hlater : now ≤ site.now)
      (hhalted : halted = true → site.halted = true) (hpolicy : site.settings.retry = policy)
      (hstep : desk.step isSealed site = some (next, desk')) :
      Ran policy ((desk.conclusion? site).toList ++ log) site.halted site.now desk'

/-- The retries and the alarms of a desk tell of each key what has come of its reconciliations. A
retry has its alarm, unless it may be without. -/
structure Books (policy : RetryPolicy) (log : List Conclusion) (unset : String → Prop) (now : Nat)
    (desk : Desk) : Prop where
  keeps : desk.KeepsRetries
  onTime : desk.alarms.OnTime now
  absent : ∀ key, failures key log = [] → desk.retries.lookup key = none
  present : ∀ key, failures key log ≠ [] → ∃ retry, desk.retries.lookup key = some retry ∧
    retry.backoff = policy.reached (failures key log).length
  owned : ∀ e ∈ desk.alarms.appointments, ∃ retry, desk.retries.lookup e.key = some retry ∧
    retry.alarm = some e.id
  due : ∀ e ∈ desk.alarms.appointments, ∃ time earlier, failures e.key log = time :: earlier ∧
    desk.alarms.start + e.due = time + (policy.delay earlier.length).millis
  set : ∀ key retry, desk.retries.lookup key = some retry → retry.alarm = none → unset key

namespace Books

variable {policy : RetryPolicy} {log : List Conclusion} {unset unset' : String → Prop} {now : Nat}
  {desk next : Desk}

theorem congr (h : desk.Books policy log unset now) (hr : next.retries = desk.retries)
    (ha : next.alarms = desk.alarms) (hunset : ∀ key, unset key → unset' key) :
    next.Books policy log unset' now where
  keeps := h.keeps.congr hr ha
  onTime := ha ▸ h.onTime
  absent := hr ▸ h.absent
  present := hr ▸ h.present
  owned := hr ▸ ha ▸ h.owned
  due := ha ▸ h.due
  set := by
    rw [hr]
    exact fun key retry hl hnone => hunset key (h.set key retry hl hnone)

theorem later {moment : Nat} (h : desk.Books policy log unset now) (hle : now ≤ moment) :
    desk.Books policy log unset moment :=
  { h with onTime := h.onTime.later hle }

/-- Looking at the alarms moves none. -/
theorem pop_none {alarms : Alarms} (h : desk.Books policy log unset now)
    (hp : desk.alarms.pop now = (none, alarms)) :
    { desk with alarms := alarms }.Books policy log unset now := by
  obtain ⟨-, hperm⟩ := Alarms.pop_appointments h.keeps.numbered.ids hp
  obtain ⟨hstart, hon, -⟩ := h.onTime.pop hp
  have hmem : ∀ e ∈ alarms.appointments, e ∈ desk.alarms.appointments :=
    fun e he => hperm.mem_iff.mpr he
  refine ⟨h.keeps.pop_none hp, hon, h.absent, h.present, fun e he => h.owned e (hmem e he),
    fun e he => ?_, h.set⟩
  dsimp only
  rw [hstart]
  exact h.due e (hmem e he)

/-- The key whose alarm goes off is without one until it has been reconciled. -/
theorem wake {alarm : Alarm} {alarms : Alarms} (h : desk.Books policy log unset now)
    (hp : desk.alarms.pop now = (some alarm, alarms)) :
    (desk.wake alarm alarms).Books policy log (fun key => key = alarm.key ∨ unset key) now := by
  obtain ⟨-, hperm⟩ := Alarms.pop_appointments h.keeps.numbered.ids hp
  obtain ⟨hstart, hon, -⟩ := h.onTime.pop hp
  have hmem : ∀ e ∈ alarms.appointments, e ∈ desk.alarms.appointments :=
    fun e he => hperm.mem_iff.mpr (List.mem_append_right _ he)
  have hids : (alarm.appointment :: alarms.appointments |>.map Appointment.id).Nodup :=
    (hperm.map Appointment.id).nodup_iff.mp h.keeps.numbered.ids
  have hfront := h.owned alarm.appointment (hperm.mem_iff.mpr (by simp))
  refine ⟨h.keeps.wake hp, hon, fun key hf => ?_, fun key hf => ?_, fun e he => ?_,
    fun e he => ?_, fun key retry hl hr => ?_⟩
  · rw [lookup_wake, h.absent key hf]
    rfl
  · obtain ⟨retry, hl, hb⟩ := h.present key hf
    rw [lookup_wake, hl]
    refine ⟨_, rfl, ?_⟩
    split <;> exact hb
  · obtain ⟨retry, hl, hr⟩ := h.owned e (hmem e he)
    have hne : e.key ≠ alarm.key := by
      intro hk
      obtain ⟨other, hlo, hro⟩ := hfront
      have hsame : some retry = some other := hl.symm.trans (hk ▸ hlo)
      cases hsame
      have hid : e.id = alarm.id := Option.some.inj (hr.symm.trans hro)
      have hnot := (List.nodup_cons.mp hids).1
      exact hnot (List.mem_map.mpr ⟨e, he, hid⟩)
    rw [lookup_wake, hl, Option.map_some, if_neg hne]
    exact ⟨retry, rfl, hr⟩
  · have hdue := h.due e (hmem e he)
    rw [← hstart] at hdue
    exact hdue
  · by_cases hk : key = alarm.key
    · exact .inl hk
    · rw [lookup_wake] at hl
      obtain ⟨old, ho, rfl⟩ := Option.map_eq_some_iff.mp hl
      rw [if_neg hk] at hr
      exact .inr (h.set key old ho hr)

/-- Only the key of the reconciliation that has ended is entered anew. -/
theorem enter (ended : Conclusion) (h : desk.Books policy log unset now)
    (hkeeps : next.KeepsRetries)
    (hon : next.alarms.OnTime now) (hstart : next.alarms.start = desk.alarms.start)
    (hlookup : ∀ key, key ≠ ended.key → next.retries.lookup key = desk.retries.lookup key)
    (hold : ∀ e ∈ next.alarms.appointments, e.key ≠ ended.key → e ∈ desk.alarms.appointments)
    (habsent : failures ended.key (ended :: log) = [] → next.retries.lookup ended.key = none)
    (hpresent : failures ended.key (ended :: log) ≠ [] →
      ∃ retry, next.retries.lookup ended.key = some retry ∧
        retry.backoff = policy.reached (failures ended.key (ended :: log)).length)
    (howned : ∀ e ∈ next.alarms.appointments, e.key = ended.key →
      ∃ retry, next.retries.lookup ended.key = some retry ∧ retry.alarm = some e.id)
    (hdue : ∀ e ∈ next.alarms.appointments, e.key = ended.key →
      ∃ time earlier, failures ended.key (ended :: log) = time :: earlier ∧
        next.alarms.start + e.due = time + (policy.delay earlier.length).millis)
    (hset : ∀ retry, next.retries.lookup ended.key = some retry → retry.alarm ≠ none) :
    next.Books policy (ended :: log) (fun key => key ≠ ended.key ∧ unset key) now := by
  refine ⟨hkeeps, hon, fun key hf => ?_, fun key hf => ?_, fun e he => ?_, fun e he => ?_,
    fun key retry hl hr => ?_⟩
  · by_cases hk : key = ended.key
    · subst hk
      exact habsent hf
    · rw [failures_of_ne log (Ne.symm hk)] at hf
      rw [hlookup key hk]
      exact h.absent key hf
  · by_cases hk : key = ended.key
    · subst hk
      exact hpresent hf
    · rw [failures_of_ne log (Ne.symm hk)] at hf ⊢
      rw [hlookup key hk]
      exact h.present key hf
  · by_cases hk : e.key = ended.key
    · rw [hk]
      exact howned e he hk
    · rw [hlookup e.key hk]
      exact h.owned e (hold e he hk)
  · by_cases hk : e.key = ended.key
    · rw [hk]
      exact hdue e he hk
    · rw [failures_of_ne log (Ne.symm hk), hstart]
      exact h.due e (hold e he hk)
  · have hk : key ≠ ended.key := by
      intro hk
      subst hk
      exact hset retry hl hr
    rw [hlookup key hk] at hl
    exact ⟨hk, h.set key retry hl hr⟩

/-- With the end of a run of failures the key has neither a retry nor an alarm. -/
theorem forgets {key : String} {verdict : Verdict} (time : Nat)
    (h : desk.Books policy log unset now)
    (hv : ∀ fault, verdict = .failed fault → fault.isRetryable = false)
    (hf : desk.forget key = some next) :
    next.Books policy (⟨key, verdict, time⟩ :: log) (fun other => other ≠ key ∧ unset other)
      now := by
  have hkeeps := h.keeps.forget hf
  have hover := failures_over key time log hv
  obtain ⟨alarms, rfl, ha⟩ := forget_eq hf
  have hgone : (desk.retries.filter fun e => e.1 ≠ key).lookup key = none :=
    lookup_filter_ne_self key desk.retries
  have halarms : alarms.start = desk.alarms.start ∧ alarms.OnTime now ∧
      ∀ e ∈ alarms.appointments, e ∈ desk.alarms.appointments ∧ e.key ≠ key := by
    rcases ha with ⟨rfl, hunset⟩ | ⟨retry, id, hl, hr, hremove⟩
    · refine ⟨rfl, h.onTime, fun e he => ⟨he, fun hk => ?_⟩⟩
      obtain ⟨retry, hl, hr⟩ := h.owned e he
      rw [hunset retry (hk ▸ hl)] at hr
      cases hr
    · obtain ⟨hstart, hon⟩ := h.onTime.remove? hremove
      refine ⟨hstart, hon, fun e he => ?_⟩
      rw [(Alarms.remove?_appointments hremove).2] at he
      obtain ⟨hm, hid⟩ := List.mem_filter.mp he
      refine ⟨hm, fun hk => ?_⟩
      obtain ⟨other, hlo, hro⟩ := h.owned e hm
      have hsame : some other = some retry := hlo.symm.trans (hk ▸ hl)
      cases hsame
      rw [hr] at hro
      cases hro
      simp at hid
  obtain ⟨hstart, hon, hmem⟩ := halarms
  refine h.enter ⟨key, verdict, time⟩ hkeeps hon hstart
    (fun other hne => lookup_filter_ne desk.retries hne) (fun e he _ => (hmem e he).1)
    (fun _ => hgone) (fun hne => absurd hover hne) (fun e he hk => absurd hk (hmem e he).2)
    (fun e he hk => absurd hk (hmem e he).2) (fun retry hl => ?_)
  dsimp only at hl
  rw [hgone] at hl
  cases hl

theorem lastBackoff_eq {key : String} {site : Site} (h : desk.Books policy log unset now)
    (hpolicy : site.settings.retry = policy) :
    desk.lastBackoff key site = policy.reached (failures key log).length := by
  unfold lastBackoff
  by_cases hf : failures key log = []
  · rw [h.absent key hf, hf, hpolicy]
    rfl
  · obtain ⟨retry, hl, hb⟩ := h.present key hf
    rw [hl]
    exact hb

/-- A further failure of a key sets its one alarm by the run of failures that it continues. -/
theorem retries {key : String} {fault : Fault} {site : Site}
    (h : desk.Books policy log unset site.now) (hpolicy : site.settings.retry = policy)
    (hretry : fault.isRetryable = true) (hr : (desk.retryLater key fault site).2 = .ok next) :
    next.Books policy (⟨key, .failed fault, site.now⟩ :: log)
      (fun other => other ≠ key ∧ unset other) site.now := by
  have hkeeps := h.keeps.retryLater hr
  have hlog := failures_retryable key site.now log hretry
  have hbackoff : site.settings.retry.next (desk.lastBackoff key site) =
      (policy.delay (failures key log).length, policy.reached ((failures key log).length + 1)) := by
    rw [h.lastBackoff_eq hpolicy, hpolicy, RetryPolicy.next_reached]
  have hdue : desk.retryDue key site =
      site.now + (policy.delay (failures key log).length).millis := by
    have hd : desk.retryDue key site =
        site.now + (site.settings.retry.next (desk.lastBackoff key site)).1.millis := rfl
    rw [hd, hbackoff]
  obtain ⟨id, alarms, rfl, hset⟩ := retryLater_eq hr
  rw [hbackoff] at hkeeps ⊢
  clear hbackoff
  dsimp only at hkeeps ⊢
  generalize hreached : policy.reached ((failures key log).length + 1) = backoff at hkeeps ⊢
  have hclock : desk.alarms.start + desk.alarms.onClock (desk.retryDue key site) =
      desk.retryDue key site := h.onTime.start_add_onClock (by omega)
  have halarms : alarms.start = desk.alarms.start ∧ alarms.OnTime site.now ∧
      ∀ e ∈ alarms.appointments, e = ⟨id, key, desk.alarms.onClock (desk.retryDue key site)⟩ ∨
        e ∈ desk.alarms.appointments ∧ e.key ≠ key := by
    rcases hset with ⟨retry, hl, hra, hreset⟩ | ⟨hunset, hinsert⟩
    · obtain ⟨hstart, hon⟩ := h.onTime.reset? hreset
      obtain ⟨alarm, hfind, -, hperm⟩ := Alarms.reset?_appointments hreset
      obtain ⟨hid, hentry⟩ := Alarms.find?_entry hfind
      subst hid
      have hkey : alarm.key = key :=
        h.keeps.key_unique hentry (h.keeps.alarmed key retry alarm.id hl hra)
      refine ⟨hstart, hon, fun e he => ?_⟩
      rcases List.mem_cons.mp (hperm.mem_iff.mp he) with rfl | hm
      · exact .inl (by rw [hkey])
      · obtain ⟨hm, hne⟩ := List.mem_filter.mp hm
        refine .inr ⟨hm, fun hk => ?_⟩
        obtain ⟨other, hlo, hro⟩ := h.owned e hm
        have hsame : some other = some retry := hlo.symm.trans (hk ▸ hl)
        cases hsame
        have hid : alarm.id = e.id := Option.some.inj (hra.symm.trans hro)
        simp [hid] at hne
    · obtain ⟨hstart, hon⟩ := h.onTime.insert? hinsert
      obtain ⟨-, -, hperm⟩ := Alarms.insert?_appointments hinsert
      refine ⟨hstart, hon, fun e he => ?_⟩
      rcases List.mem_cons.mp (hperm.mem_iff.mp he) with rfl | hm
      · exact .inl rfl
      · refine .inr ⟨hm, fun hk => ?_⟩
        obtain ⟨other, hlo, hro⟩ := h.owned e hm
        rw [hunset other (hk ▸ hlo)] at hro
        cases hro
  obtain ⟨hstart, hon, hmem⟩ := halarms
  have hself := lookup_putRetry_self key ⟨backoff, some id⟩ desk.retries
  refine h.enter ⟨key, .failed fault, site.now⟩ hkeeps hon hstart
    (fun other hne => lookup_putRetry_of_ne _ desk.retries hne) (fun e he hne => ?_)
    (fun hnone => ?_) (fun _ => ⟨_, hself, ?_⟩) (fun e he hk => ⟨_, hself, ?_⟩)
    (fun e he hk => ⟨site.now, failures key log, hlog, ?_⟩) (fun retry hl => ?_)
  · rcases hmem e he with rfl | ⟨hm, -⟩
    · exact absurd rfl hne
    · exact hm
  · rw [hlog] at hnone
    cases hnone
  · rw [hlog]
    exact hreached.symm
  · rcases hmem e he with rfl | ⟨-, hne⟩
    · rfl
    · exact absurd hk hne
  · rcases hmem e he with rfl | ⟨-, hne⟩
    · dsimp only
      rw [hstart, hclock, hdue]
    · exact absurd hk hne
  · dsimp only at hl
    rw [hself] at hl
    cases hl
    simp

/-- A step that ends no reconciliation leaves the books as they are, but for the key whose alarm
goes off. -/
theorem moves {desk' : Desk} {isSealed : Bool} {site site' : Site}
    (h : desk.Books policy log (fun key => site.halted = true ∨ key ∈ desk.phase.texts) site.now)
    (hm : desk.Moves isSealed site site' desk')
    (hphase : ∀ key work rest, desk.phase ≠ .reconciling key work rest) :
    desk'.Books policy log (fun key => site.halted = true ∨ key ∈ desk'.phase.texts) site.now := by
  have hidle : desk.phase.texts = [] → ∀ key,
      site.halted = true ∨ key ∈ desk.phase.texts → site.halted = true := by
    intro htexts key hkey
    simpa [htexts] using hkey
  cases hm with
  | closes alarms hp hend hpop =>
    have hnone := hidle (by simp [hp, DeskPhase.texts])
    rcases hpop with rfl | hpop
    · exact h.congr rfl rfl fun key hkey => .inl (hnone key hkey)
    · exact (h.pop_none hpop).congr rfl rfl fun key hkey => .inl (hnone key hkey)
  | wakes alarm alarms hp hh hpop =>
    have hnone := hidle (by simp [hp, DeskPhase.texts])
    refine (h.wake hpop).congr rfl rfl fun key hkey => ?_
    rcases hkey with rfl | hkey
    · exact .inr (by simp [Desk.wake, DeskPhase.texts])
    · exact .inl (hnone key hkey)
  | takes key rest alarms hp hh hpop hi =>
    have hnone := hidle (by simp [hp, DeskPhase.texts])
    exact (h.pop_none hpop).congr rfl rfl fun key hkey => .inl (hnone key hkey)
  | looks rest alarms hp hh hpop hi =>
    have hnone := hidle (by simp [hp, DeskPhase.texts])
    exact (h.pop_none hpop).congr rfl rfl fun key hkey => .inl (hnone key hkey)
  | turns alarms hp hh hpop => exact h.pop_none hpop
  | rests hp =>
    have hnone := hidle (by simp [hp, DeskPhase.texts])
    exact h.congr rfl rfl fun key hkey => .inl (hnone key hkey)
  | begins key rest hp hh =>
    refine h.congr rfl rfl fun other hother => ?_
    rw [hp] at hother
    exact hother
  | drops hh hp => exact h.congr rfl rfl fun _ _ => .inl hh
  | goesOn key work work' rest next roster hp => exact absurd hp (hphase key work rest)
  | concludes key work rest next after roster verdict desk' hp =>
    exact absurd hp (hphase key work rest)
  | settles closing closing' next hp hc =>
    have hnone := hidle (by simp [hp, DeskPhase.texts])
    exact h.congr rfl rfl fun key hkey => .inl (hnone key hkey)
  | finishes closing next hp hc =>
    have hnone := hidle (by simp [hp, DeskPhase.texts])
    exact h.congr rfl rfl fun key hkey => .inl (hnone key hkey)

/-- The end of a reconciliation is entered, unless the desk breaks down with it. -/
theorem concludes {key : String} {rest : List String} {site after : Site} (verdict : Verdict)
    (h : desk.Books policy log unset site.now) (hphase : desk.phase = .working rest)
    (hunset : ∀ other, unset other → other ≠ key → site.halted = true ∨ other ∈ rest)
    (hnow : site.now = after.now) (hpolicy : after.settings.retry = policy) :
    (∃ message, (desk.conclude key after verdict).2 = desk.crash message) ∨
      (desk.conclude key after verdict).2.Books policy (⟨key, verdict, site.now⟩ :: log)
        (fun other => site.halted = true ∨
          other ∈ (desk.conclude key after verdict).2.phase.texts) site.now := by
  have hc := desk.conclude_concludes key after verdict
  generalize desk.conclude key after verdict = result at hc
  obtain ⟨left, next⟩ := result
  dsimp only at hc ⊢
  cases hc with
  | forgets _ _ level text _ hv hcrashed hsite hf =>
    have hbooks := h.forgets site.now hv hf
    obtain ⟨alarms, rfl, -⟩ := forget_eq hf
    refine .inr (hbooks.congr rfl rfl fun other hother => ?_)
    dsimp only
    rw [hphase]
    exact hunset other hother.2 hother.1
  | retries fault _ text hr hretry =>
    rw [hnow] at h ⊢
    have hbooks := h.retries hpolicy hretry hr
    obtain ⟨id, alarms, rfl, -⟩ := retryLater_eq hr
    refine .inr (hbooks.congr rfl rfl fun other hother => ?_)
    dsimp only
    rw [hphase]
    exact hunset other hother.2 hother.1
  | overreaches => exact .inl ⟨_, rfl⟩
  | loses => exact .inl ⟨_, rfl⟩
  | breaks => exact .inl ⟨_, rfl⟩

end Books

end Desk

end AddonWatch

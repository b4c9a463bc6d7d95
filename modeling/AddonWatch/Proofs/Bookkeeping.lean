import AddonWatch.Proofs.OneWatcher
import AddonWatch.Proofs.RetryBooks

namespace AddonWatch

/-- A reconciliation of that text begins with it and goes on only if it can be read. -/
def Reconciling.Reads (text : String) : Reconciling → Prop
  | .fresh other => other = text
  | .stopping _ => True
  | .replacing _ _ _ _ => ∃ key, AddonKey.parse text = .ok key
  | .opening _ _ => ∃ key, AddonKey.parse text = .ok key

theorem Reconciling.Moves.reads {site next : Site} {roster roster' : Roster} {text : String}
    {work work' : Reconciling} (hm : work.Moves site roster next roster' (.inl work'))
    (h : work.Reads text) : work'.Reads text := by
  cases hm with
  | stops => trivial
  | asks other key _ _ hp =>
    obtain rfl : other = text := h
    exact ⟨key, hp⟩
  | replaces other key _ _ _ _ hp =>
    obtain rfl : other = text := h
    exact ⟨key, hp⟩
  | replaced => exact h
  | waits => exact h

/-- A reconciliation that fails fails for good exactly if its text cannot be read. -/
theorem Reconciling.Moves.fault_reads {site next : Site} {roster roster' : Roster} {text : String}
    {work : Reconciling} {fault : Fault}
    (hm : work.Moves site roster next roster' (.inr (.failed fault))) (h : work.Reads text) :
    fault.isRetryable = true ↔ ∃ key, AddonKey.parse text = .ok key := by
  cases hm with
  | refused other _ hp =>
    obtain rfl : other = text := h
    rw [hp]
    unfold AddonKey.parse at hp
    split at hp
    · cases hp
    · cases hp
      simp [Fault.isRetryable]
  | fails key attempt _ hretry => exact ⟨fun _ => h, fun _ => hretry⟩

namespace Desk

theorem crash_keeps (desk : Desk) (message : String) : (desk.crash message).KeepsRetries where
  numbered := ⟨List.nodup_nil, fun e he => by simp [crash, Alarms.entries] at he⟩
  alarmed key retry id hl := by simp [crash] at hl

/-- The desk has broken down, or its books are in order; while the scope stands only the keys that
it is at are without an alarm. -/
def Stands (policy : RetryPolicy) (log : List Conclusion) (halted : Bool) (now : Nat)
    (desk : Desk) : Prop :=
  (desk.isDown = true ∧ desk.KeepsRetries) ∨
    desk.Books policy log (fun key => halted = true ∨ key ∈ desk.phase.texts) now

theorem Stands.reconciles {policy : RetryPolicy} {log : List Conclusion} {desk desk' : Desk}
    {isSealed : Bool} {site site' : Site} {key : String} {work : Reconciling} {rest : List String}
    (h : desk.Books policy log (fun key => site.halted = true ∨ key ∈ desk.phase.texts) site.now)
    (hpolicy : site.settings.retry = policy) (hphase : desk.phase = .reconciling key work rest)
    (hstep : desk.step isSealed site = some (site', desk')) :
    desk'.Stands policy ((desk.conclusion? site).toList ++ log) site.halted site.now := by
  simp only [step, hphase] at hstep
  simp only [conclusion?, hphase]
  split at hstep
  next hh =>
    cases hstep
    rw [if_pos hh]
    exact .inr (h.congr rfl rfl fun _ _ => .inl hh)
  next hh =>
    rw [if_neg hh]
    obtain ⟨⟨after, roster, result⟩, hwork, hstep⟩ := Option.map_eq_some_iff.mp hstep
    rw [hwork]
    cases result with
    | inl work' =>
      cases hstep
      refine .inr (h.congr rfl rfl fun other hother => ?_)
      rw [hphase] at hother
      exact hother
    | inr verdict =>
      have hmoves := Reconciling.step_moves hwork
      have hsettings : after.settings.retry = policy := hmoves.grows.settings ▸ hpolicy
      have hbooks : ({ desk with roster := roster, phase := .working rest } : Desk).Books policy log
          (fun key => site.halted = true ∨ key ∈ desk.phase.texts) site.now :=
        h.congr rfl rfl fun _ => id
      have hunset : ∀ other, site.halted = true ∨ other ∈ desk.phase.texts → other ≠ key →
          site.halted = true ∨ other ∈ rest := by
        intro other hother hne
        rw [hphase] at hother
        simpa [DeskPhase.texts, hne] using hother
      have hend := hbooks.concludes verdict rfl hunset hmoves.now.symm hsettings
      dsimp only at hstep
      rw [hstep] at hend
      dsimp only at hend
      rcases hend with ⟨message, rfl⟩ | hkept
      · exact .inl ⟨rfl, crash_keeps _ message⟩
      · exact .inr hkept

theorem Ran.stands {policy : RetryPolicy} {log : List Conclusion} {halted : Bool} {now : Nat}
    {desk : Desk} (h : Ran policy log halted now desk) : desk.Stands policy log halted now := by
  induction h with
  | start arrangement now =>
    have hkeeps := (Supervision.Orderly.fresh_desk arrangement now default fun _ => True).retries
    refine .inr ⟨hkeeps, ⟨?_, ?_, ?_⟩, ?_, ?_, ?_, ?_, ?_⟩
    all_goals simp [Alarms.appointments, failures]
  | hears log halted now desk works h ih =>
    rcases ih with ⟨hcrashed, hkeeps⟩ | hbooks
    · exact .inl ⟨hcrashed, hkeeps.congr rfl rfl⟩
    · exact .inr (hbooks.congr rfl rfl fun _ => id)
  | step log halted now desk desk' isSealed site next h hlater hhalted hpolicy hstep ih =>
    rcases ih with ⟨hcrashed, -⟩ | hbooks
    · exact absurd hcrashed (step_moves hstep).not_down
    · have hbooks' := (hbooks.later hlater).congr rfl rfl fun key => Or.imp_left hhalted
      cases hphase : desk.phase with
      | reconciling key work rest => exact Stands.reconciles hbooks' hpolicy hphase hstep
      | _ =>
        have hnone : desk.conclusion? site = none := by simp [conclusion?, hphase]
        rw [hnone]
        exact .inr (hbooks'.moves (step_moves hstep) (by simp [hphase]))

/-- A desk is at what the text of its key calls for. -/
def IsReading (desk : Desk) : Prop :=
  ∀ text work rest, desk.phase = .reconciling text work rest → work.Reads text

theorem Moves.isReading {desk desk' : Desk} {isSealed : Bool} {site site' : Site}
    (h : desk.IsReading) (hm : desk.Moves isSealed site site' desk') : desk'.IsReading := by
  cases hm with
  | begins key rest hphase hh =>
    intro text work others hp
    cases hp
    exact rfl
  | goesOn text work work' rest next roster hphase hh hmoves =>
    intro other work'' others hp
    cases hp
    exact hmoves.reads (h text work rest hphase)
  | concludes key work rest next after roster verdict desk' hphase hh hmoves hc =>
    intro other work' others hp
    rcases hc.phase with hsame | ⟨message, hcrashed⟩
    · rw [hsame] at hp
      cases hp
    · rw [hcrashed] at hp
      cases hp
  | turns alarms hphase =>
    intro other work others hp
    exact h other work others hp
  | _ =>
    intro other work others hp
    simp [wake] at hp

/-- A key that cannot be read fails for good each time, and no other key ever does. -/
theorem Ran.readable {policy : RetryPolicy} {log : List Conclusion} {halted : Bool} {now : Nat}
    {desk : Desk} (h : Ran policy log halted now desk) :
    desk.IsReading ∧ ∀ ended ∈ log, ∀ fault, ended.verdict = .failed fault →
      (fault.isRetryable = true ↔ ∃ key, AddonKey.parse ended.key = .ok key) := by
  induction h with
  | start now => exact ⟨fun _ _ _ hp => (by cases hp), by simp⟩
  | hears log halted now desk works h ih => exact ih
  | step log halted now desk desk' isSealed site next h hlater hhalted hpolicy hstep ih =>
    obtain ⟨hreads, hlog⟩ := ih
    refine ⟨(step_moves hstep).isReading hreads, fun ended he fault hv => ?_⟩
    rcases List.mem_append.mp he with hnew | hold
    · obtain ⟨work, rest, after, roster, hphase, hwork⟩ :=
        conclusion?_eq_some (Option.mem_toList.mp hnew)
      rw [hv] at hwork
      exact (Reconciling.step_moves hwork).fault_reads (hreads _ work rest hphase)
    · exact hlog ended hold fault hv

theorem Ran.keeps {policy : RetryPolicy} {log : List Conclusion} {halted : Bool} {now : Nat}
    {desk : Desk} (h : Ran policy log halted now desk) : desk.KeepsRetries := by
  rcases h.stands with ⟨-, hkeeps⟩ | hbooks
  · exact hkeeps
  · exact hbooks.keeps

/-- The alarms of a key that have not gone off. -/
def alarmsOf (desk : Desk) (key : String) : List Appointment :=
  desk.alarms.appointments.filter fun e => e.key = key

namespace Books

variable {policy : RetryPolicy} {log : List Conclusion} {unset : String → Prop} {now : Nat}
  {desk : Desk} {key : String} {retry : Retry}

theorem alarmsOf_eq_nil (h : desk.Books policy log unset now)
    (hnone : ∀ retry, desk.retries.lookup key = some retry → retry.alarm = none) :
    desk.alarmsOf key = [] := by
  apply List.filter_eq_nil_iff.mpr
  intro e he hk
  obtain ⟨retry, hl, hr⟩ := h.owned e he
  have hkey : e.key = key := by simpa using hk
  rw [hnone retry (hkey ▸ hl)] at hr
  cases hr

/-- A key that has an alarm has no other. -/
theorem alarmsOf_eq_singleton {id : Nat} (h : desk.Books policy log unset now)
    (hl : desk.retries.lookup key = some retry) (hr : retry.alarm = some id) :
    ∃ e, e.id = id ∧ e ∈ desk.alarms.appointments ∧ e.key = key ∧ desk.alarmsOf key = [e] := by
  have hentry := h.keeps.alarmed key retry id hl hr
  rw [Alarms.entries_eq] at hentry
  obtain ⟨e, he, hid⟩ := List.mem_map.mp hentry
  cases hid
  have hin : e ∈ desk.alarmsOf e.key := List.mem_filter.mpr ⟨he, by simp⟩
  have hids : ((desk.alarmsOf e.key).map Appointment.id).Nodup :=
    h.keeps.numbered.ids.sublist (List.filter_sublist.map Appointment.id)
  have hsame : ∀ other ∈ desk.alarmsOf e.key, other.id = e.id := by
    intro other ho
    obtain ⟨hm, hk⟩ := List.mem_filter.mp ho
    have hkey : other.key = e.key := by simpa using hk
    obtain ⟨owner, hlo, hro⟩ := h.owned other hm
    have hboth : some owner = some retry := hlo.symm.trans (hkey ▸ hl)
    cases hboth
    exact Option.some.inj (hro.symm.trans hr)
  refine ⟨e, rfl, he, rfl, ?_⟩
  match hlist : desk.alarmsOf e.key, hin, hids, hsame with
  | [only], hin, _, _ => rw [List.mem_singleton.mp hin]
  | first :: second :: rest, _, hids, hsame =>
    have hfirst := hsame first (by simp)
    have hsecond := hsame second (by simp)
    simp [hfirst, hsecond] at hids

end Books

/-- However works come in and reconciliations end, a desk never moves or takes out an alarm that is
not there, and sets every alarm that is not due too far ahead. Between two works each key has a
retry exactly if its last reconciliation has failed in a way that may go better the next time; the
retry has the one alarm of the key, due when the delay for the run of failures has passed since the
last of them, and there are no other alarms. Only a cancelled scope leaves the key without one that
it is just about to look at again. -/
theorem one_retry_per_failing_key {policy : RetryPolicy} {log : List Conclusion} {halted : Bool}
    {now : Nat} {desk : Desk} (h : Ran policy log halted now desk) :
    (∀ key, desk.forget key ≠ none) ∧
    (∀ key fault site message, (desk.retryLater key fault site).2 = .error message →
      desk.Overreaches key site) ∧
    (∀ ended ∈ log, ∀ fault, ended.verdict = .failed fault →
      (fault.isRetryable = true ↔ ∃ key, AddonKey.parse ended.key = .ok key)) ∧
    (desk.phase = .idle → ∀ key,
      ((desk.retries.lookup key).isSome ↔ ∃ ended fault, log.find? (·.key = key) = some ended ∧
        ended.verdict = .failed fault ∧ fault.isRetryable = true) ∧
      (desk.retries.lookup key = none → desk.alarmsOf key = []) ∧
      ∀ retry, desk.retries.lookup key = some retry →
        (∃ e time earlier, retry.alarm = some e.id ∧ desk.alarmsOf key = [e] ∧
          failures key log = time :: earlier ∧
          desk.alarms.start + e.due = time + (policy.delay earlier.length).millis ∧
          (policy.IsExact →
            desk.alarms.start + e.due = time + (policy.delayAfter earlier.length).millis)) ∨
        (halted = true ∧ retry.alarm = none ∧ desk.alarmsOf key = [])) := by
  have hkeeps := h.keeps
  refine ⟨hkeeps.forget_ne_none, fun key fault site message => hkeeps.overreaches, h.readable.2,
    fun hidle key => ?_⟩
  have hbooks : desk.Books policy log (fun _ => halted = true) now := by
    rcases h.stands with ⟨hcrashed, -⟩ | hbooks
    · simp [isDown, hidle] at hcrashed
    · refine hbooks.congr rfl rfl fun other hother => ?_
      simpa [hidle, DeskPhase.texts] using hother
  refine ⟨?_, fun hnone => ?_, fun retry hl => ?_⟩
  · rw [← failures_ne_nil_iff]
    constructor
    · intro hsome hnil
      rw [hbooks.absent key hnil] at hsome
      cases hsome
    · intro hne
      obtain ⟨retry, hl, -⟩ := hbooks.present key hne
      rw [hl]
      rfl
  · exact hbooks.alarmsOf_eq_nil fun retry hl => by rw [hnone] at hl; cases hl
  · cases hr : retry.alarm with
    | none =>
      refine .inr ⟨hbooks.set key retry hl hr, rfl, hbooks.alarmsOf_eq_nil fun other ho => ?_⟩
      rw [hl] at ho
      cases ho
      exact hr
    | some id =>
      obtain ⟨e, rfl, he, rfl, hsingle⟩ := hbooks.alarmsOf_eq_singleton hl hr
      obtain ⟨time, earlier, hlog, hdue⟩ := hbooks.due e he
      refine .inl ⟨e, time, earlier, rfl, hsingle, hlog, hdue, fun hexact => ?_⟩
      rw [hdue, hexact.delay_eq]

/-- So many steps on a site that stays as it is. -/
def stay (site : Site) : Nat → List Conclusion × Desk → Option (List Conclusion × Desk)
  | 0, books => some books
  | steps + 1, (log, desk) =>
    match desk.step false site with
    | some (_, desk') => stay site steps ((desk.conclusion? site).toList ++ log, desk')
    | none => none

theorem Ran.stay {policy : RetryPolicy} {site : Site} {steps : Nat} {log log' : List Conclusion}
    {now : Nat} {desk desk' : Desk} (h : Ran policy log false now desk) (hlater : now ≤ site.now)
    (hhalted : site.halted = false) (hpolicy : site.settings.retry = policy)
    (hs : stay site steps (log, desk) = some (log', desk')) :
    ∃ last, last ≤ site.now ∧ Ran policy log' false last desk' := by
  induction steps generalizing log desk now with
  | zero =>
    cases hs
    exact ⟨now, hlater, h⟩
  | succ steps ih =>
    simp only [Desk.stay] at hs
    split at hs
    next after next hstep =>
      have hran := h.step log false now desk next false site after hlater (by simp) hpolicy hstep
      rw [hhalted] at hran
      exact ih hran (Nat.le_refl _) hs
    next => cases hs

/-- A site where no subscription can be opened for the first addon. -/
def refusing (now : Nat) : Site where
  now := now
  hub := {
    addons := [Supervision.specimen "a" "x"]
    opens := ⟨[], .refuse .unserved⟩ }

/-- A desk that is told of the first addon, and fails with it at once and when its alarm goes
off. -/
def failsTwice : Option (List Conclusion × Desk) :=
  (stay (refusing 0) 5 ([], { inbox := [.sync "ns/a"] })).bind (stay (refusing 1000) 5)

def isIdle (desk : Desk) : Bool :=
  match desk.phase with
  | .idle => true
  | _ => false

/-- The second retry of the first addon is due two seconds behind the second failure. -/
theorem one_retry_per_failing_key_first : ∃ (log : List Conclusion) (now : Nat) (desk : Desk),
    Ran ({} : Settings).retry log false now desk ∧ desk.phase = .idle ∧
      failures "ns/a" log = [1000, 0] ∧ desk.alarms.start = 0 ∧
      ∃ e, desk.alarmsOf "ns/a" = [e] ∧ e.due = 3000 := by
  have hcomputed : (failsTwice.any fun books => failures "ns/a" books.1 = [1000, 0] &&
      books.2.isIdle && books.2.alarms.start = 0) = true := by decide +kernel
  obtain ⟨⟨log, desk⟩, hrun, hp⟩ := (Option.any_eq_true ..).mp hcomputed
  simp only [Bool.and_eq_true, decide_eq_true_eq] at hp
  obtain ⟨⟨hlog, hidle⟩, hstart⟩ := hp
  obtain ⟨⟨mid, waiting⟩, hfirst, hsecond⟩ := Option.bind_eq_some_iff.mp hrun
  have hbegun : Ran ({} : Settings).retry [] false 0 { inbox := [.sync "ns/a"] } :=
    Ran.hears [] false 0 _ [.sync "ns/a"] (.start default 0)
  obtain ⟨last, hlast, hwaiting⟩ := hbegun.stay (Nat.zero_le _) rfl rfl hfirst
  obtain ⟨now, -, hran⟩ := hwaiting.stay (by simp [refusing] at hlast; omega) rfl rfl hsecond
  have hphase : desk.phase = .idle := by
    unfold isIdle at hidle
    split at hidle
    · assumption
    · cases hidle
  obtain ⟨-, -, -, hloop⟩ := one_retry_per_failing_key hran
  obtain ⟨hfails, -, hretry⟩ := hloop hphase "ns/a"
  rw [← failures_ne_nil_iff, hlog] at hfails
  obtain ⟨retry, hl⟩ := Option.isSome_iff_exists.mp (hfails.mpr (by simp))
  rcases hretry retry hl with ⟨e, time, earlier, -, hone, hrow, -, hdue⟩ | ⟨hhalted, -⟩
  · rw [hlog] at hrow
    cases hrow
    have hmoment := hdue ⟨by decide, by decide⟩
    rw [hstart, Nat.zero_add] at hmoment
    exact ⟨log, now, desk, hran, hphase, hlog, hstart, e, hone, hmoment⟩
  · cases hhalted

end Desk

/-- Every desk of a supervision has such a run behind it. -/
theorem Supervision.Reached.ran {w : Surroundings} {s : Supervision} (h : s.Reached w) {i : Nat}
    {desk : Desk} (hd : s.desks[i]? = some desk) : ∃ log halted now,
      Desk.Ran s.site.settings.retry log halted now desk ∧ now ≤ s.site.now ∧
        (halted = true → s.site.halted = true) := by
  induction h generalizing desk with
  | start s hf => simp [hf.desks] at hd
  | next s s' hr hm ih =>
    have honward := hr.onward hm
    have hkeep : ∀ {old}, s.desks[i]? = some old → ∃ log halted now,
        Desk.Ran s'.site.settings.retry log halted now old ∧ now ≤ s'.site.now ∧
          (halted = true → s'.site.halted = true) := by
      intro old hold
      obtain ⟨log, halted, now, hran, hnow, hhalted⟩ := ih hold
      rw [honward.settings]
      exact ⟨log, halted, now, hran, Nat.le_trans hnow honward.now,
        fun hh => honward.halted (hhalted hh)⟩
    cases hm with
    | task t _ hstep =>
      cases t with
      | child j =>
        obtain ⟨site, -, rfl⟩ := stepChild_cases hstep
        exact hkeep hd
      | desk j =>
        obtain ⟨old, new, site, hold, hdesk, rfl⟩ := step_of_stepDesk hstep
        rcases getElem?_set_desk hold hd with ⟨rfl, rfl⟩ | ⟨-, hkept⟩
        · obtain ⟨log, halted, now, hran, hnow, hhalted⟩ := ih hold
          have hnext := hran.step log halted now old desk s.isSealed s.site site hnow hhalted rfl
            hdesk
          refine ⟨(old.conclusion? s.site).toList ++ log, s.site.halted, s.site.now, ?_,
            honward.now, honward.halted⟩
          rw [honward.settings]
          exact hnext
        · exact hkeep hkept
      | lead =>
        rcases (stepLead_moves hstep).desks with ⟨call, deadline, -, rfl⟩ | ⟨more, hsends⟩
        · obtain ⟨hub, trace, lead, he, -⟩ := Orderly.begin_eq s
          rw [he] at hd ⊢
          obtain rfl := List.eq_of_mem_replicate (List.mem_of_getElem? hd)
          exact ⟨[], false, s.site.now, .start _ _, Nat.le_refl _, by simp⟩
        · rw [hsends.desks] at hd
          obtain ⟨old, hold, rfl⟩ := Option.map_eq_some_iff.mp hd
          obtain ⟨log, halted, now, hran, hrest⟩ := hkeep hold
          exact ⟨log, halted, now, .hears log halted now old (more i) hran, hrest⟩
    | hub new ha => exact hkeep hd
    | time moment ht => exact hkeep hd
    | halt => exact hkeep hd

end AddonWatch

import AddonWatch.Proofs.AlarmEntries
import AddonWatch.Proofs.RosterLookup
import AddonWatch.Proofs.SiteChildren

namespace AddonWatch

namespace Desk

/-- Where its run of failures has taken the backoff of a key. -/
def lastBackoff (desk : Desk) (key : String) (site : Site) : Backoff :=
  ((desk.retries.lookup key).getD ⟨site.settings.retry.start, none⟩).backoff

/-- How long a key that fails now is to be left alone. -/
def retryDelay (desk : Desk) (key : String) (site : Site) : Span :=
  (site.settings.retry.next
    ((desk.retries.lookup key).getD ⟨site.settings.retry.start, none⟩).backoff).1

/-- The moment at which a key that fails now is to be looked at again. -/
def retryDue (desk : Desk) (key : String) (site : Site) : Nat :=
  site.now + (desk.retryDelay key site).millis

/-- That moment is beyond the last one, or further ahead of the clock of the alarms than an alarm
can be set. -/
def Overreaches (desk : Desk) (key : String) (site : Site) : Prop :=
  site.settings.reaches site.now (desk.retryDelay key site) = false ∨
    Alarms.horizon < desk.alarms.onClock (desk.retryDue key site) - desk.alarms.elapsed

/-- Every retry that waits for an alarm has one of its own key. -/
structure KeepsRetries (desk : Desk) : Prop where
  numbered : desk.alarms.Numbered
  alarmed : ∀ key retry id, desk.retries.lookup key = some retry → retry.alarm = some id →
    (id, key) ∈ desk.alarms.entries

theorem KeepsRetries.congr {desk next : Desk} (h : desk.KeepsRetries)
    (hr : next.retries = desk.retries) (ha : next.alarms = desk.alarms) : next.KeepsRetries where
  numbered := ha ▸ h.numbered
  alarmed := by
    rw [hr, ha]
    exact h.alarmed

/-- The end of a reconciliation leaves the retries alone, until its outcome is dealt with. -/
theorem KeepsRetries.working {desk : Desk} (h : desk.KeepsRetries) (roster : Roster)
    (rest : List String) :
    ({ desk with roster := roster, phase := .working rest } : Desk).KeepsRetries :=
  h.congr rfl rfl

/-- Looking at the alarms keeps every retry what it was. -/
theorem KeepsRetries.pop_none {desk : Desk} {alarms : Alarms} {now : Nat} (h : desk.KeepsRetries)
    (hp : desk.alarms.pop now = (none, alarms)) : { desk with alarms := alarms }.KeepsRetries where
  numbered := h.numbered.pop hp
  alarmed key retry id hl hr :=
    (Alarms.pop_perm h.numbered hp).2.mem_iff.mp (h.alarmed key retry id hl hr)

theorem lookup_wake (desk : Desk) (alarm : Alarm) (alarms : Alarms) (key : String) :
    (desk.wake alarm alarms).retries.lookup key = (desk.retries.lookup key).map fun retry =>
      if key = alarm.key then { retry with alarm := none } else retry := by
  unfold wake
  dsimp only
  induction desk.retries with
  | nil => rfl
  | cons e rest ih =>
    obtain ⟨other, retry⟩ := e
    by_cases hk : key = other
    · subst hk
      by_cases ha : key = alarm.key <;> simp [ha]
    · have hne : (key == other) = false := beq_false_of_ne hk
      rw [List.map_cons]
      split <;> simp only [List.lookup_cons, hne, ih]

/-- The key whose alarm has gone off has none any more, and the others keep theirs. -/
theorem KeepsRetries.wake {desk : Desk} {alarm : Alarm} {alarms : Alarms} {now : Nat}
    (h : desk.KeepsRetries) (hp : desk.alarms.pop now = (some alarm, alarms)) :
    (desk.wake alarm alarms).KeepsRetries := by
  refine ⟨h.numbered.pop hp, fun key retry id hl hr => ?_⟩
  rw [lookup_wake] at hl
  obtain ⟨old, ho, rfl⟩ := Option.map_eq_some_iff.mp hl
  split at hr
  next => cases hr
  next hne =>
    have hm := (Alarms.pop_perm h.numbered hp).2.mem_iff.mp (h.alarmed key old id ho hr)
    rcases List.mem_append.mp hm with he | hm
    · have he : (id, key) = alarm.entry := by simpa using he
      exact absurd (Prod.mk.inj he).2 hne
    · exact hm

theorem KeepsRetries.key_unique {desk : Desk} (h : desk.KeepsRetries) {id : Nat} {a b : String}
    (ha : (id, a) ∈ desk.alarms.entries) (hb : (id, b) ∈ desk.alarms.entries) : a = b := by
  have hpa := lookup_of_mem h.numbered.nodup ha
  have hpb := lookup_of_mem h.numbered.nodup hb
  exact Option.some.inj (hpa.symm.trans hpb)

theorem filter_ne_of_lookup_none {retries : List (String × Retry)} {key : String}
    (h : retries.lookup key = none) : (retries.filter fun e => e.1 ≠ key) = retries := by
  rw [List.lookup_eq_none_iff] at h
  apply List.filter_eq_self.mpr
  intro e he
  have : key ≠ e.1 := by simpa using h e he
  simpa using this.symm

/-- A key that is forgotten has no retry any more, and its alarm is taken out. -/
theorem forget_eq {desk next : Desk} {key : String} (h : desk.forget key = some next) :
    ∃ alarms, next = { desk with
        retries := desk.retries.filter fun e => e.1 ≠ key, alarms := alarms } ∧
      ((alarms = desk.alarms ∧ ∀ retry, desk.retries.lookup key = some retry →
          retry.alarm = none) ∨
        ∃ retry id, desk.retries.lookup key = some retry ∧ retry.alarm = some id ∧
          desk.alarms.remove? id = some alarms) := by
  unfold forget at h
  split at h
  next hl =>
    cases h
    refine ⟨desk.alarms, ?_, .inl ⟨rfl, by simp [hl]⟩⟩
    rw [filter_ne_of_lookup_none hl]
  next retry hl =>
    dsimp only at h
    split at h
    next hnone =>
      cases h
      refine ⟨desk.alarms, rfl, .inl ⟨rfl, fun other ho => ?_⟩⟩
      rw [hl] at ho
      cases ho
      exact hnone
    next id ha =>
      obtain ⟨alarms, hr, rfl⟩ := Option.map_eq_some_iff.mp h
      exact ⟨alarms, rfl, .inr ⟨retry, id, hl, ha, hr⟩⟩

theorem KeepsRetries.forget_ne_none {desk : Desk} (h : desk.KeepsRetries) (key : String) :
    desk.forget key ≠ none := by
  intro hn
  unfold forget at hn
  split at hn
  next => cases hn
  next retry hl =>
    dsimp only at hn
    split at hn
    next => cases hn
    next id ha =>
      have hr : desk.alarms.remove? id = none := Option.map_eq_none_iff.mp hn
      have hf : desk.alarms.find? id = none := Option.map_eq_none_iff.mp hr
      exact Alarms.find?_eq_none_iff.mp hf _ (h.alarmed key retry id hl ha) rfl

theorem KeepsRetries.forget {desk next : Desk} {key : String} (h : desk.KeepsRetries)
    (hf : desk.forget key = some next) : next.KeepsRetries := by
  obtain ⟨alarms, rfl, ha⟩ := forget_eq hf
  have hkeep : ∀ other retry id,
      (desk.retries.filter fun e => e.1 ≠ key).lookup other = some retry →
        retry.alarm = some id → other ≠ key ∧ (id, other) ∈ desk.alarms.entries := by
    intro other retry id hl hr
    by_cases hk : other = key
    · subst hk
      rw [lookup_filter_ne_self] at hl
      cases hl
    · rw [lookup_filter_ne _ hk] at hl
      exact ⟨hk, h.alarmed other retry id hl hr⟩
  rcases ha with ⟨rfl, -⟩ | ⟨old, gone, hl, hold, hr⟩
  · exact ⟨h.numbered, fun other retry id hl hr => (hkeep other retry id hl hr).2⟩
  · obtain ⟨hfresh, he⟩ := Alarms.entries_remove? hr
    refine ⟨h.numbered.without hfresh he, fun other retry id hlo hro => ?_⟩
    obtain ⟨hne, hm⟩ := hkeep other retry id hlo hro
    rw [he]
    refine List.mem_filter.mpr ⟨hm, ?_⟩
    have hid : id ≠ gone := by
      rintro rfl
      exact hne (h.key_unique hm (h.alarmed key old id hl hold))
    simpa using hid

theorem retryLater_site (desk : Desk) (key : String) (fault : Fault) (site : Site) :
    ∃ text, (desk.retryLater key fault site).1 = site.log .warn text := by
  exact ⟨_, rfl⟩

theorem ok_of_getD {α β : Type} {o : Option α} {f : α → β} {message : String} {b : β}
    (h : (o.map fun a => Except.ok (f a)).getD (.error message) = .ok b) :
    ∃ a, o = some a ∧ f a = b := by
  cases o with
  | none => cases h
  | some a => exact ⟨a, rfl, Except.ok.inj h⟩

theorem eq_none_of_getD {α β : Type} {o : Option α} {f : α → β} {message other : String}
    (h : (o.map fun a => Except.ok (f a)).getD (.error message) = .error other) : o = none := by
  cases o with
  | none => rfl
  | some a => cases h

/-- The alarm of a key that fails can be set unless it is due too far ahead. -/
theorem KeepsRetries.overreaches {desk : Desk} {key message : String} {fault : Fault} {site : Site}
    (h : desk.KeepsRetries) (hn : (desk.retryLater key fault site).2 = .error message) :
    desk.Overreaches key site := by
  simp only [retryLater] at hn
  split at hn
  next hbeyond => exact .inl (Bool.not_inj hbeyond)
  next =>
    right
    split at hn
    next id ha =>
      have hr := eq_none_of_getD hn
      cases hl : desk.retries.lookup key with
      | none => simp [hl] at ha
      | some retry =>
        have hra : retry.alarm = some id := by simpa [hl] using ha
        have hm := h.alarmed key retry id hl hra
        simpa [retryDue, retryDelay, hl, Site.log, Site.mark] using Alarms.reset?_eq_none hm hr
    next => exact Alarms.insert?_eq_none (eq_none_of_getD hn)

/-- A key that fails has one alarm from then on, the one it had or a new one if it had none. -/
theorem retryLater_eq {desk next : Desk} {key : String} {fault : Fault} {site : Site}
    (h : (desk.retryLater key fault site).2 = .ok next) :
    ∃ id alarms, next = { desk with
        retries := putRetry key
          ⟨(site.settings.retry.next (desk.lastBackoff key site)).2, some id⟩ desk.retries
        alarms := alarms } ∧
      ((∃ retry, desk.retries.lookup key = some retry ∧ retry.alarm = some id ∧
          desk.alarms.reset? id (desk.retryDue key site) = some alarms) ∨
        (∀ retry, desk.retries.lookup key = some retry → retry.alarm = none) ∧
          desk.alarms.insert? key (desk.retryDue key site) = some (id, alarms)) := by
  simp only [retryLater] at h
  split at h
  next => cases h
  next =>
    split at h
    next id ha =>
      obtain ⟨alarms, hr, rfl⟩ := ok_of_getD h
      cases hl : desk.retries.lookup key with
      | none => simp [hl] at ha
      | some retry =>
        have hra : retry.alarm = some id := by simpa [hl] using ha
        refine ⟨id, alarms, by simp [lastBackoff, hl], .inl ⟨retry, rfl, hra, ?_⟩⟩
        simpa [retryDue, retryDelay, hl, Site.log, Site.mark] using hr
    next ha =>
      obtain ⟨⟨id, alarms⟩, hi, rfl⟩ := ok_of_getD h
      exact ⟨id, alarms, rfl, .inr ⟨fun retry hl => by simpa [hl] using ha, hi⟩⟩

theorem KeepsRetries.retryLater {desk next : Desk} {key : String} {fault : Fault} {site : Site}
    (h : desk.KeepsRetries) (hl : (desk.retryLater key fault site).2 = .ok next) :
    next.KeepsRetries := by
  obtain ⟨id, alarms, rfl, hset⟩ := retryLater_eq hl
  have hin : (id, key) ∈ alarms.entries ∧ (∀ e ∈ desk.alarms.entries, e ∈ alarms.entries) ∧
      alarms.Numbered := by
    rcases hset with ⟨retry, hlk, hra, hr⟩ | ⟨-, hi⟩
    · obtain ⟨hfresh, hperm⟩ := Alarms.reset?_perm h.numbered hr
      have hm := h.alarmed key retry id hlk hra
      exact ⟨hperm.mem_iff.mpr hm, fun e he => hperm.mem_iff.mpr he,
        h.numbered.of_perm [] hfresh hperm.symm⟩
    · obtain ⟨-, -, hperm⟩ := Alarms.insert?_perm hi
      exact ⟨hperm.mem_iff.mpr (by simp), fun e he => hperm.mem_iff.mpr (by simp [he]),
        h.numbered.insert? hi⟩
  refine ⟨hin.2.2, fun other retry id' hlo hro => ?_⟩
  by_cases hk : other = key
  · subst hk
    rw [lookup_putRetry_self] at hlo
    cases hlo
    cases hro
    exact hin.1
  · rw [lookup_putRetry_of_ne _ _ hk] at hlo
    exact hin.2.1 _ (h.alarmed other retry id' hlo hro)

end Desk

end AddonWatch

import AddonWatch.Proofs.Appointments

namespace AddonWatch

/-- What an alarm is known by, wherever it lies. -/
def Alarm.entry (alarm : Alarm) : Nat × String :=
  (alarm.id, alarm.key)

def Appointment.entry (appointment : Appointment) : Nat × String :=
  (appointment.id, appointment.key)

namespace Alarms

/-- The alarms that have not gone off, overdue ones included. -/
def entries (alarms : Alarms) : List (Nat × String) :=
  (alarms.overdue ++ alarms.pending).map Alarm.entry

/-- No number is given twice, and none that is still to be given. -/
structure Numbered (alarms : Alarms) : Prop where
  nodup : (alarms.entries.map Prod.fst).Nodup
  lt_fresh : ∀ e ∈ alarms.entries, e.1 < alarms.fresh

theorem entries_eq (alarms : Alarms) :
    alarms.entries = alarms.appointments.map Appointment.entry := by
  simp only [entries, appointments, List.map_map]
  rfl

theorem Numbered.ids {alarms : Alarms} (hn : alarms.Numbered) :
    (alarms.appointments.map Appointment.id).Nodup := by
  have hnodup := hn.nodup
  rw [entries_eq, List.map_map] at hnodup
  exact hnodup

theorem Numbered.of_perm {alarms next : Alarms} (hn : alarms.Numbered)
    (taken : List (Nat × String)) (hfresh : next.fresh = alarms.fresh)
    (h : alarms.entries.Perm (taken ++ next.entries)) : next.Numbered := by
  have hnodup := (h.map Prod.fst).nodup_iff.mp hn.nodup
  rw [List.map_append] at hnodup
  refine ⟨(List.nodup_append.mp hnodup).2.1, fun e he => ?_⟩
  rw [hfresh]
  exact hn.lt_fresh e (h.mem_iff.mpr (List.mem_append_right taken he))

/-- What goes off is taken out, and nothing else is. -/
theorem pop_perm {alarms next : Alarms} {found : Option Alarm} {now : Nat}
    (hn : alarms.Numbered) (h : alarms.pop now = (found, next)) :
    next.fresh = alarms.fresh ∧
      alarms.entries.Perm ((found.map Alarm.entry).toList ++ next.entries) := by
  obtain ⟨hfresh, hperm⟩ := pop_appointments hn.ids h
  have hm := hperm.map Appointment.entry
  rw [List.map_append, ← entries_eq, ← entries_eq] at hm
  refine ⟨hfresh, ?_⟩
  cases found <;> exact hm

theorem Numbered.pop {alarms next : Alarms} {found : Option Alarm} {now : Nat}
    (hn : alarms.Numbered) (h : alarms.pop now = (found, next)) : next.Numbered :=
  have hp := pop_perm hn h
  hn.of_perm _ hp.1 hp.2

/-- An alarm finds a place unless it is set further ahead than the clock can count. -/
theorem place?_eq_none {alarms : Alarms} {id due : Nat} {key : String}
    (h : alarms.place? id key due = none) : horizon < due - alarms.elapsed := by
  unfold place? at h
  split at h
  next => simp at h
  next =>
    split at h
    next hlt => exact hlt
    next => simp at h

/-- A new alarm can always be set unless it is set further ahead than the clock can count. -/
theorem insert?_eq_none {alarms : Alarms} {key : String} {moment : Nat}
    (h : alarms.insert? key moment = none) :
    horizon < alarms.onClock moment - alarms.elapsed := by
  unfold insert? at h
  simp only [Option.bind_eq_bind, Option.bind_eq_none_iff] at h
  cases hp : ({ alarms with fresh := alarms.fresh + 1 } : Alarms).place? alarms.fresh key
      (alarms.onClock moment) with
  | none =>
    have hlt := place?_eq_none hp
    exact hlt
  | some next => simpa using h next hp

theorem insert?_perm {alarms next : Alarms} {key : String} {moment id : Nat}
    (h : alarms.insert? key moment = some (id, next)) :
    id = alarms.fresh ∧ next.fresh = alarms.fresh + 1 ∧
      next.entries.Perm ((id, key) :: alarms.entries) := by
  obtain ⟨hid, hfresh, hperm⟩ := insert?_appointments h
  have hm := hperm.map Appointment.entry
  rw [List.map_cons, ← entries_eq, ← entries_eq] at hm
  exact ⟨hid, hfresh, hm⟩

theorem Numbered.insert? {alarms next : Alarms} {key : String} {moment id : Nat}
    (hn : alarms.Numbered) (h : alarms.insert? key moment = some (id, next)) : next.Numbered := by
  obtain ⟨rfl, hfresh, hperm⟩ := insert?_perm h
  refine ⟨?_, ?_⟩
  · apply (hperm.map Prod.fst).nodup_iff.mpr
    refine List.nodup_cons.mpr ⟨?_, hn.nodup⟩
    intro hm
    obtain ⟨e, he, hid⟩ := List.mem_map.mp hm
    exact absurd hid (Nat.ne_of_lt (hn.lt_fresh e he))
  · intro e he
    rw [hfresh]
    rcases List.mem_cons.mp (hperm.mem_iff.mp he) with rfl | hm
    · exact Nat.lt_succ_self _
    · exact Nat.lt_succ_of_lt (hn.lt_fresh e hm)

theorem find?_eq_none_iff {alarms : Alarms} {id : Nat} :
    alarms.find? id = none ↔ ∀ e ∈ alarms.entries, e.1 ≠ id := by
  simp only [find?, List.find?_eq_none, decide_eq_true_eq, entries, List.forall_mem_map]
  exact Iff.rfl

theorem find?_entry {alarms : Alarms} {id : Nat} {alarm : Alarm}
    (h : alarms.find? id = some alarm) : alarm.id = id ∧ alarm.entry ∈ alarms.entries := by
  have hid := List.find?_some h
  exact ⟨by simpa using hid, List.mem_map_of_mem (List.mem_of_find?_eq_some h)⟩

theorem entries_filter (alarms : Alarms) (id : Nat) :
    (alarms.appointments.filter fun e => e.id ≠ id).map Appointment.entry =
      alarms.entries.filter fun e => e.1 ≠ id := by
  rw [entries_eq, List.filter_map]
  rfl

theorem entries_remove? {alarms next : Alarms} {id : Nat} (h : alarms.remove? id = some next) :
    next.fresh = alarms.fresh ∧ next.entries = alarms.entries.filter fun e => e.1 ≠ id := by
  obtain ⟨hfresh, he⟩ := remove?_appointments h
  rw [entries_eq next, he, entries_filter]
  exact ⟨hfresh, rfl⟩

theorem Numbered.without {alarms next : Alarms} {id : Nat} (hn : alarms.Numbered)
    (hfresh : next.fresh = alarms.fresh)
    (he : next.entries = alarms.entries.filter fun e => e.1 ≠ id) : next.Numbered := by
  refine ⟨?_, fun e hm => ?_⟩
  · rw [he]
    exact hn.nodup.sublist (List.filter_sublist.map Prod.fst)
  · rw [hfresh]
    exact hn.lt_fresh e (List.mem_of_mem_filter (he ▸ hm))

/-- An alarm that is there can be moved unless it is moved further ahead than the clock can
count. -/
theorem reset?_eq_none {alarms : Alarms} {id moment : Nat} {key : String}
    (hm : (id, key) ∈ alarms.entries) (h : alarms.reset? id moment = none) :
    horizon < alarms.onClock moment - alarms.elapsed := by
  cases hf : alarms.find? id with
  | none => exact absurd rfl (find?_eq_none_iff.mp hf _ hm)
  | some alarm =>
    simp only [reset?, hf, Option.bind_eq_bind, Option.bind_some, Option.bind_eq_none_iff] at h
    cases hp : (alarms.without id).place? id alarm.key (alarms.onClock moment) with
    | none =>
      have hlt := place?_eq_none hp
      exact hlt
    | some next => simpa using h next hp

theorem reset?_perm {alarms next : Alarms} {id moment : Nat} (hn : alarms.Numbered)
    (h : alarms.reset? id moment = some next) :
    next.fresh = alarms.fresh ∧ next.entries.Perm alarms.entries := by
  obtain ⟨alarm, hf, hfresh, hperm⟩ := reset?_appointments h
  obtain ⟨rfl, hm⟩ := find?_entry hf
  have hmap := hperm.map Appointment.entry
  rw [List.map_cons, entries_filter, ← entries_eq] at hmap
  exact ⟨hfresh, hmap.trans (perm_cons_filter_ne hm hn.nodup).symm⟩

end Alarms

end AddonWatch

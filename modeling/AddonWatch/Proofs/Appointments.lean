import AddonWatch.Alarms
import Mathlib.Data.List.Basic
import Mathlib.Data.List.Perm.Basic

namespace AddonWatch

/-- What an alarm stands for, wherever it lies. -/
structure Appointment where
  id : Nat
  key : String
  due : Nat
deriving DecidableEq, Repr, Inhabited

def Alarm.appointment (alarm : Alarm) : Appointment :=
  ⟨alarm.id, alarm.key, alarm.due⟩

namespace Alarms

/-- The alarms that have not gone off, overdue ones included, with the moments they are set for. -/
def appointments (alarms : Alarms) : List Appointment :=
  (alarms.overdue ++ alarms.pending).map Alarm.appointment

theorem foldl_lowered (moved rest : List Alarm) :
    (moved.foldl (fun found alarm => alarm.lowered :: found) rest).map Alarm.appointment =
      (moved.map Alarm.appointment).reverse ++ rest.map Alarm.appointment := by
  simp [Alarm.appointment, Alarm.lowered]

/-- Placing alarms into finer slots loses none. -/
theorem spread_perm (front : Alarm) (pending : List Alarm) :
    ((spread front pending).map Alarm.appointment).Perm (pending.map Alarm.appointment) := by
  unfold spread
  rw [foldl_lowered]
  have hs := List.filter_append_perm (fun alarm : Alarm => alarm.shares front) pending
  have hm := hs.map Alarm.appointment
  rw [List.map_append] at hm
  exact ((List.reverse_perm _).append_right _).trans hm

/-- With distinct numbers, taking one number out takes out one item. -/
theorem perm_cons_filter_ne {α : Type} {number : α → Nat} {items : List α} {front : α}
    (hm : front ∈ items) (hn : (items.map number).Nodup) :
    items.Perm (front :: items.filter fun item => number item ≠ number front) := by
  induction items with
  | nil => simp at hm
  | cons item rest ih =>
    obtain ⟨hfresh, hrest⟩ := List.nodup_cons.mp hn
    have hkeep : ∀ other ∈ rest, number other ≠ number item := by
      intro other ho he
      exact hfresh (he ▸ List.mem_map_of_mem ho)
    rcases List.mem_cons.mp hm with rfl | hm'
    · have hf : rest.filter (fun other => number other ≠ number front) = rest :=
        List.filter_eq_self.mpr fun other ho => by simpa using hkeep other ho
      rw [List.filter_cons_of_neg (by simp), hf]
    · have hne : number item ≠ number front := fun he => hkeep front hm' he.symm
      rw [List.filter_cons_of_pos (by simpa using hne)]
      exact ((ih hm' hrest).cons item).trans (List.Perm.swap front item _)

/-- The alarm that goes off is the only one that a search for it takes out. -/
theorem sift_perm {limit elapsed elapsed' : Nat} {pending pending' : List Alarm}
    {found : Option Alarm} (hn : ((pending.map Alarm.appointment).map Appointment.id).Nodup)
    (h : sift limit elapsed pending = (found, elapsed', pending')) :
    (pending.map Alarm.appointment).Perm
      ((found.map Alarm.appointment).toList ++ pending'.map Alarm.appointment) := by
  fun_induction sift limit elapsed pending with
  | case1 elapsed pending hf => cases h; exact .refl _
  | case2 elapsed pending front hf hlt => cases h; exact .refl _
  | case3 elapsed pending front hf hlt hlevel =>
    cases h
    rw [List.map_map] at hn
    exact (perm_cons_filter_ne (mem_of_foremost hf) hn).map Alarm.appointment
  | case4 elapsed pending front hf hlt hlevel _ ih =>
    have hs := spread_perm front pending
    exact hs.symm.trans (ih ((hs.map Appointment.id).nodup_iff.mpr hn) h)

/-- A search ends at a moment that has been reached, and what it finds is due by then. -/
theorem sift_reached {limit elapsed elapsed' : Nat} {pending pending' : List Alarm}
    {found : Option Alarm} (h : sift limit elapsed pending = (found, elapsed', pending')) :
    elapsed' ≤ max elapsed limit ∧ ∀ alarm, found = some alarm → alarm.due ≤ limit := by
  fun_induction sift limit elapsed pending with
  | case1 elapsed pending hf =>
    cases h
    exact ⟨Nat.le_refl _, by simp⟩
  | case2 elapsed pending front hf hlt =>
    cases h
    exact ⟨Nat.le_refl _, by simp⟩
  | case3 elapsed pending front hf hlt hlevel =>
    cases h
    refine ⟨Nat.le_max_left _ _, fun alarm ha => ?_⟩
    cases ha
    rw [Alarm.slot, hlevel, Nat.pow_eq, Nat.pow_zero, Nat.mod_one] at hlt
    omega
  | case4 elapsed pending front hf hlt hlevel _ ih =>
    obtain ⟨hmost, hdue⟩ := ih h
    exact ⟨by omega, hdue⟩

theorem turn_appointments {alarms next : Alarms} {found : Option Alarm}
    (hn : (alarms.appointments.map Appointment.id).Nodup) (h : alarms.turn = (found, next)) :
    next.fresh = alarms.fresh ∧
      alarms.appointments.Perm ((found.map Alarm.appointment).toList ++ next.appointments) := by
  obtain ⟨hf, rfl⟩ := Prod.mk.inj h
  refine ⟨rfl, ?_⟩
  have hp : ((alarms.pending.map Alarm.appointment).map Appointment.id).Nodup := by
    rw [appointments, List.map_append, List.map_append] at hn
    exact (List.nodup_append.mp hn).2.1
  have hs := sift_perm hp (Prod.ext hf rfl)
  have hm := hs.append_left (alarms.overdue.map Alarm.appointment)
  simp only [appointments, List.map_append]
  refine hm.trans ?_
  rw [← List.append_assoc, ← List.append_assoc]
  exact List.perm_append_comm.append_right _

theorem turns_appointments {alarms next : Alarms} {found : Option Alarm} {now fuel : Nat}
    (hn : (alarms.appointments.map Appointment.id).Nodup)
    (h : turns now fuel alarms = (found, next)) : next.fresh = alarms.fresh ∧
      alarms.appointments.Perm ((found.map Alarm.appointment).toList ++ next.appointments) := by
  induction fuel generalizing alarms with
  | zero => cases h; exact ⟨rfl, .refl _⟩
  | succ fuel ih =>
    unfold turns at h
    split at h
    next => exact turn_appointments hn h
    next moment hw =>
      split at h
      next => cases h; exact ⟨rfl, .refl _⟩
      next =>
        have hset : (({ alarms with reached := moment } : Alarms).appointments.map
            Appointment.id).Nodup := hn
        split at h
        next alarm other ht =>
          cases h
          have hperm := turn_appointments hset ht
          exact hperm
        next other ht =>
          obtain ⟨hfresh, hperm⟩ := turn_appointments hset ht
          split at h
          next => cases h; exact ⟨hfresh, hperm⟩
          next =>
            obtain ⟨hfresh', hperm'⟩ := ih ((hperm.map Appointment.id).nodup_iff.mp hn) h
            exact ⟨hfresh'.trans hfresh, hperm.trans hperm'⟩

/-- What goes off is taken out, and nothing else is. -/
theorem pop_appointments {alarms next : Alarms} {found : Option Alarm} {now : Nat}
    (hn : (alarms.appointments.map Appointment.id).Nodup) (h : alarms.pop now = (found, next)) :
    next.fresh = alarms.fresh ∧
      alarms.appointments.Perm ((found.map Alarm.appointment).toList ++ next.appointments) := by
  unfold pop at h
  split at h
  next alarm rest ho =>
    cases h
    refine ⟨rfl, ?_⟩
    simp [appointments, ho]
  next => exact turns_appointments hn h

theorem place?_appointments {alarms next : Alarms} {id due : Nat} {key : String}
    (h : alarms.place? id key due = some next) : next.fresh = alarms.fresh ∧
      next.appointments.Perm (⟨id, key, due⟩ :: alarms.appointments) := by
  unfold place? at h
  split at h
  next =>
    cases h
    exact ⟨rfl, by simp [appointments, Alarm.appointment]⟩
  next =>
    split at h
    next => simp at h
    next =>
      cases h
      refine ⟨rfl, ?_⟩
      simp only [appointments, List.map_append, List.map_cons]
      exact List.perm_middle

theorem wakeBy_appointments (alarms : Alarms) (due : Nat) :
    (alarms.wakeBy due).fresh = alarms.fresh ∧
      (alarms.wakeBy due).appointments = alarms.appointments := by
  unfold wakeBy
  split
  · split <;> exact ⟨rfl, rfl⟩
  · exact ⟨rfl, rfl⟩

theorem insert?_appointments {alarms next : Alarms} {key : String} {moment id : Nat}
    (h : alarms.insert? key moment = some (id, next)) :
    id = alarms.fresh ∧ next.fresh = alarms.fresh + 1 ∧
      next.appointments.Perm (⟨id, key, alarms.onClock moment⟩ :: alarms.appointments) := by
  obtain ⟨placed, hp, h⟩ := Option.bind_eq_some_iff.mp h
  cases h
  obtain ⟨hfresh, hperm⟩ := place?_appointments hp
  obtain ⟨hfresh', hkeep⟩ := wakeBy_appointments placed (alarms.onClock moment)
  refine ⟨rfl, hfresh'.trans hfresh, ?_⟩
  rw [hkeep]
  exact hperm

theorem appointments_without (alarms : Alarms) (id : Nat) :
    (alarms.without id).appointments = alarms.appointments.filter fun e => e.id ≠ id := by
  simp only [appointments, without, ← List.filter_append, List.filter_map]
  rfl

theorem remove?_appointments {alarms next : Alarms} {id : Nat}
    (h : alarms.remove? id = some next) : next.fresh = alarms.fresh ∧
      next.appointments = alarms.appointments.filter fun e => e.id ≠ id := by
  obtain ⟨alarm, -, rfl⟩ := Option.map_eq_some_iff.mp h
  rw [← appointments_without]
  dsimp only
  split <;> exact ⟨rfl, rfl⟩

/-- An alarm that is moved keeps its number and its key. -/
theorem reset?_appointments {alarms next : Alarms} {id moment : Nat}
    (h : alarms.reset? id moment = some next) : ∃ alarm, alarms.find? id = some alarm ∧
      next.fresh = alarms.fresh ∧
      next.appointments.Perm (⟨id, alarm.key, alarms.onClock moment⟩ ::
        alarms.appointments.filter fun e => e.id ≠ id) := by
  obtain ⟨alarm, hf, h⟩ := Option.bind_eq_some_iff.mp h
  obtain ⟨placed, hp, h⟩ := Option.bind_eq_some_iff.mp h
  cases h
  obtain ⟨hfresh, hperm⟩ := place?_appointments hp
  rw [appointments_without] at hperm
  exact ⟨alarm, hf, hfresh, hperm⟩

/-- The clock has not been looked at past the present moment. -/
structure OnTime (alarms : Alarms) (now : Nat) : Prop where
  elapsed : alarms.start + alarms.elapsed ≤ now
  reached : alarms.start + alarms.reached ≤ now
  overdue : ∀ alarm ∈ alarms.overdue, alarms.start + alarm.due ≤ now

namespace OnTime

variable {alarms next : Alarms} {now : Nat} {found : Option Alarm}

theorem later {moment : Nat} (h : alarms.OnTime now) (hle : now ≤ moment) :
    alarms.OnTime moment where
  elapsed := Nat.le_trans h.elapsed hle
  reached := Nat.le_trans h.reached hle
  overdue alarm ha := Nat.le_trans (h.overdue alarm ha) hle

/-- The clock counts a moment that has not passed exactly. -/
theorem start_add_onClock {moment : Nat} (h : alarms.OnTime now) (hle : now ≤ moment) :
    alarms.start + alarms.onClock moment = moment := by
  have he := h.elapsed
  unfold onClock
  omega

theorem turn (h : alarms.OnTime now) (ht : alarms.turn = (found, next)) :
    next.start = alarms.start ∧ next.OnTime now ∧
      ∀ alarm, found = some alarm → next.start + alarm.due ≤ now := by
  obtain ⟨hf, rfl⟩ := Prod.mk.inj ht
  have he := h.elapsed
  have hr := h.reached
  obtain ⟨hmost, hdue⟩ := sift_reached (Prod.ext hf rfl)
  refine ⟨rfl, ⟨?_, hr, h.overdue⟩, fun alarm ha => ?_⟩
  · dsimp only
    omega
  · have hd := hdue alarm ha
    dsimp only
    omega

theorem turns {fuel : Nat} (h : alarms.OnTime now) (ht : turns now fuel alarms = (found, next)) :
    next.start = alarms.start ∧ next.OnTime now ∧
      ∀ alarm, found = some alarm → next.start + alarm.due ≤ now := by
  induction fuel generalizing alarms with
  | zero =>
    cases ht
    exact ⟨rfl, h, by simp⟩
  | succ fuel ih =>
    unfold Alarms.turns at ht
    split at ht
    next => exact h.turn ht
    next moment hw =>
      split at ht
      next =>
        cases ht
        exact ⟨rfl, h, by simp⟩
      next hlt =>
        have hset : OnTime { alarms with reached := moment } now :=
          ⟨h.elapsed, Nat.le_of_not_lt hlt, h.overdue⟩
        split at ht
        next alarm other hturn =>
          cases ht
          exact hset.turn hturn
        next other hturn =>
          obtain ⟨hstart, hon, -⟩ := hset.turn hturn
          split at ht
          next =>
            cases ht
            exact ⟨hstart, hon, by simp⟩
          next =>
            obtain ⟨hstart', hrest⟩ := ih hon ht
            exact ⟨hstart'.trans hstart, hrest⟩

/-- No alarm goes off before the moment that it is set for. -/
theorem pop (h : alarms.OnTime now) (hp : alarms.pop now = (found, next)) :
    next.start = alarms.start ∧ next.OnTime now ∧
      ∀ alarm, found = some alarm → next.start + alarm.due ≤ now := by
  unfold Alarms.pop at hp
  split at hp
  next alarm rest ho =>
    cases hp
    refine ⟨rfl, ⟨h.elapsed, h.reached, fun other hm => ?_⟩, fun other he => ?_⟩
    · exact h.overdue other (by simp [ho, hm])
    · cases he
      exact h.overdue alarm (by simp [ho])
  next => exact h.turns hp

theorem place? {id due : Nat} {key : String} (h : alarms.OnTime now)
    (hp : alarms.place? id key due = some next) :
    next.start = alarms.start ∧ next.OnTime now := by
  have he := h.elapsed
  unfold Alarms.place? at hp
  split at hp
  next hle =>
    cases hp
    refine ⟨rfl, h.elapsed, h.reached, fun alarm ha => ?_⟩
    rcases List.mem_cons.mp ha with rfl | ha
    · dsimp only
      omega
    · exact h.overdue alarm ha
  next =>
    split at hp
    next => cases hp
    next =>
      cases hp
      exact ⟨rfl, h.elapsed, h.reached, h.overdue⟩

theorem without (h : alarms.OnTime now) (id : Nat) : (alarms.without id).OnTime now where
  elapsed := h.elapsed
  reached := h.reached
  overdue alarm ha := h.overdue alarm (List.mem_of_mem_filter ha)

theorem wakeBy (h : alarms.OnTime now) (due : Nat) :
    (alarms.wakeBy due).start = alarms.start ∧ (alarms.wakeBy due).OnTime now := by
  unfold Alarms.wakeBy
  split
  · split
    · exact ⟨rfl, h.elapsed, h.reached, h.overdue⟩
    · exact ⟨rfl, h⟩
  · exact ⟨rfl, h.elapsed, h.reached, h.overdue⟩

theorem insert? {id moment : Nat} {key : String} (h : alarms.OnTime now)
    (hi : alarms.insert? key moment = some (id, next)) :
    next.start = alarms.start ∧ next.OnTime now := by
  obtain ⟨placed, hp, hi⟩ := Option.bind_eq_some_iff.mp hi
  cases hi
  have hfresh : OnTime { alarms with fresh := alarms.fresh + 1 } now :=
    ⟨h.elapsed, h.reached, h.overdue⟩
  obtain ⟨hstart, hon⟩ := hfresh.place? hp
  obtain ⟨hwoken, hwake⟩ := hon.wakeBy (alarms.onClock moment)
  exact ⟨hwoken.trans hstart, hwake⟩

theorem reset? {id moment : Nat} (h : alarms.OnTime now)
    (hr : alarms.reset? id moment = some next) :
    next.start = alarms.start ∧ next.OnTime now := by
  obtain ⟨alarm, -, hr⟩ := Option.bind_eq_some_iff.mp hr
  obtain ⟨placed, hp, hr⟩ := Option.bind_eq_some_iff.mp hr
  cases hr
  obtain ⟨hstart, hon⟩ := (h.without id).place? hp
  exact ⟨hstart, hon.elapsed, hon.reached, hon.overdue⟩

theorem remove? {id : Nat} (h : alarms.OnTime now) (hr : alarms.remove? id = some next) :
    next.start = alarms.start ∧ next.OnTime now := by
  obtain ⟨alarm, -, rfl⟩ := Option.map_eq_some_iff.mp hr
  have hon := h.without id
  dsimp only
  split
  · exact ⟨rfl, hon⟩
  · exact ⟨rfl, hon.elapsed, hon.reached, hon.overdue⟩

end OnTime

end Alarms

end AddonWatch

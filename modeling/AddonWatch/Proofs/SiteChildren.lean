import AddonWatch.Roster
import Mathlib.Data.List.Basic

namespace AddonWatch

/-- What a watcher that reports its own end was started for. -/
def Child.assignment? (child : Child) : Option Assignment :=
  match child.body with
  | .guarded follower => some follower.assignment
  | _ => none

theorem Child.guarded_of_assignment? {child : Child} {a : Assignment}
    (h : child.assignment? = some a) : ∃ f, child.body = .guarded f ∧ f.assignment = a := by
  unfold assignment? at h
  split at h
  next f hb => exact ⟨f, hb, Option.some.inj h⟩
  next => cases h

namespace Site

def assignment? (site : Site) (i : Nat) : Option Assignment :=
  site.children[i]?.bind Child.assignment?

/-- The child runs for that assignment, and nothing has told it to stop. -/
def Live (site : Site) (i : Nat) (a : Assignment) : Prop :=
  site.halted = false ∧ ∃ child, site.children[i]? = some child ∧ child.assignment? = some a ∧
    child.fired = false ∧ child.condition = .running

/-- Every status write that was completed, the latest first: who made it, of which addon, when. -/
def writes (site : Site) : List (Option Nat × Addon × Nat) :=
  site.trace.filterMap fun
    | .wrote author addon time => some (author, addon, time)
    | _ => none

theorem Live.assignment? {site : Site} {i : Nat} {a : Assignment} (h : site.Live i a) :
    site.assignment? i = some a := by
  obtain ⟨-, child, hc, ha, -⟩ := h
  simp [Site.assignment?, hc, ha]

theorem Live.running {site : Site} {i : Nat} {a : Assignment} {child : Child}
    (h : site.Live i a) (hc : site.children[i]? = some child) :
    child.assignment? = some a ∧ site.isCancelled child = false ∧ child.isFinished = false := by
  obtain ⟨hh, other, ho, ha, hf, hr⟩ := h
  obtain rfl : child = other := Option.some.inj (hc.symm.trans ho)
  exact ⟨ha, by simp [isCancelled, hf, hh], by simp [Child.isFinished, hr]⟩

theorem Live.of_running {site : Site} {i : Nat} {a : Assignment} {child : Child}
    (hc : site.children[i]? = some child) (ha : child.assignment? = some a)
    (hn : site.isCancelled child = false) (hr : child.isFinished = false) : site.Live i a := by
  simp only [isCancelled, Bool.or_eq_false_iff] at hn
  exact ⟨hn.2, child, hc, ha, hn.1, by simpa [Child.isFinished] using hr⟩

theorem Live.of_guarded {site : Site} {i : Nat} {child : Child} {f : Follower}
    (hc : site.children[i]? = some child) (hb : child.body = .guarded f)
    (hr : child.condition = .running) (hn : site.isCancelled child = false) :
    site.Live i f.assignment :=
  .of_running hc (by simp [Child.assignment?, hb]) hn (by simp [Child.isFinished, hr])

theorem lt_length_of_assignment? {site : Site} {i : Nat} {a : Assignment}
    (h : site.assignment? i = some a) : i < site.children.length := by
  obtain ⟨child, hc, -⟩ := Option.bind_eq_some_iff.mp h
  exact (List.getElem?_eq_some_iff.mp hc).1

theorem isFinished_of_getElem? {site : Site} {i : Nat} {child : Child}
    (hc : site.children[i]? = some child) : site.isFinished i = child.isFinished := by
  simp [isFinished, hc]

/-- Children go on for what they were started for, and none comes back to life; there are no new
ones, and the settings and the scope stay as they are. -/
structure Ages (old new : Site) : Prop where
  settings : new.settings = old.settings
  reports : new.reportsExits = old.reportsExits
  halted : new.halted = old.halted
  length : new.children.length = old.children.length
  assignment : ∀ i, new.assignment? i = old.assignment? i
  live : ∀ i a, new.Live i a → old.Live i a
  running : ∀ i, new.isFinished i = false → old.isFinished i = false

namespace Ages

protected theorem refl (site : Site) : site.Ages site :=
  ⟨rfl, rfl, rfl, rfl, fun _ => rfl, fun _ _ h => h, fun _ h => h⟩

protected theorem trans {a b c : Site} (hab : a.Ages b) (hbc : b.Ages c) : a.Ages c where
  settings := hbc.settings.trans hab.settings
  reports := hbc.reports.trans hab.reports
  halted := hbc.halted.trans hab.halted
  length := hbc.length.trans hab.length
  assignment i := (hbc.assignment i).trans (hab.assignment i)
  live i a h := hab.live i a (hbc.live i a h)
  running i h := hab.running i (hbc.running i h)

/-- What is done to the hub and what is remarked on leaves the children alone. -/
protected theorem hub_trace (site : Site) (hub : Hub) (trace : List Mark) (exits : List String) :
    site.Ages { site with hub := hub, trace := trace, exits := exits } :=
  ⟨rfl, rfl, rfl, rfl, fun _ => rfl, fun _ _ h => h, fun _ h => h⟩

end Ages

/-- The children of before are the same and none has come back to life, but there may be more. -/
structure Grows (old new : Site) : Prop where
  settings : new.settings = old.settings
  reports : new.reportsExits = old.reportsExits
  halted : new.halted = false → old.halted = false
  length : old.children.length ≤ new.children.length
  assignment : ∀ i, i < old.children.length → new.assignment? i = old.assignment? i
  live : ∀ i a, i < old.children.length → new.Live i a → old.Live i a
  running : ∀ i, i < old.children.length → new.isFinished i = false → old.isFinished i = false

theorem Ages.grows {old new : Site} (h : old.Ages new) : old.Grows new where
  settings := h.settings
  reports := h.reports
  halted hh := h.halted ▸ hh
  length := Nat.le_of_eq h.length.symm
  assignment i _ := h.assignment i
  live i a _ := h.live i a
  running i _ := h.running i

theorem Grows.trans {a b c : Site} (hab : a.Grows b) (hbc : b.Grows c) : a.Grows c where
  settings := hbc.settings.trans hab.settings
  reports := hbc.reports.trans hab.reports
  halted h := hab.halted (hbc.halted h)
  length := Nat.le_trans hab.length hbc.length
  assignment i hi :=
    (hbc.assignment i (Nat.lt_of_lt_of_le hi hab.length)).trans (hab.assignment i hi)
  live i as hi h := hab.live i as hi (hbc.live i as (Nat.lt_of_lt_of_le hi hab.length) h)
  running i hi h := hab.running i hi (hbc.running i (Nat.lt_of_lt_of_le hi hab.length) h)

/-- A child that has ended has ended for good. -/
theorem Grows.finished {old new : Site} (h : old.Grows new) {i : Nat}
    (hi : i < old.children.length) (hd : old.isFinished i = true) : new.isFinished i = true := by
  by_contra hne
  have hup := h.running i hi (eq_false_of_ne_true hne)
  rw [hd] at hup
  cases hup

theorem Grows.time (site : Site) (moment : Nat) : site.Grows { site with now := moment } :=
  ⟨rfl, rfl, id, Nat.le_refl _, fun _ _ => rfl, fun _ _ _ h => h, fun _ _ h => h⟩

theorem Grows.halt (site : Site) : site.Grows { site with halted := true } :=
  ⟨rfl, rfl, fun h => by simp at h, Nat.le_refl _, fun _ _ => rfl,
    fun _ _ _ h => absurd h.1 (by simp), fun _ _ h => h⟩

theorem Live.lt_length {site : Site} {i : Nat} {a : Assignment} (h : site.Live i a) :
    i < site.children.length := by
  obtain ⟨-, child, hc, -⟩ := h
  exact (List.getElem?_eq_some_iff.mp hc).1

theorem getElem?_setChild (site : Site) (i j : Nat) (change : Child → Child) :
    (site.setChild i change).children[j]? =
      if i = j then site.children[j]?.map change else site.children[j]? := by
  simp [setChild, List.getElem?_modify]
  split <;> simp

theorem live_setChild_of_ne {site : Site} {i j : Nat} {change : Child → Child} {a : Assignment}
    (h : i ≠ j) : (site.setChild i change).Live j a ↔ site.Live j a := by
  unfold Live
  rw [getElem?_setChild, if_neg h]
  exact Iff.rfl

/-- A change that neither gives a child another task nor revives it. -/
theorem Ages.setChild (site : Site) (i : Nat) {change : Child → Child}
    (hbody : ∀ child, site.children[i]? = some child →
      (change child).assignment? = child.assignment?)
    (hfired : ∀ child, (change child).fired = false → child.fired = false)
    (hrun : ∀ child, (change child).condition = .running → child.condition = .running) :
    site.Ages (site.setChild i change) where
  settings := rfl
  reports := rfl
  halted := rfl
  length := List.length_modify ..
  assignment j := by
    unfold Site.assignment?
    rw [getElem?_setChild]
    split
    next hij =>
      subst hij
      cases hc : site.children[i]? with
      | none => rfl
      | some child => exact hbody child hc
    next => rfl
  live j a h := by
    obtain ⟨hh, child, hc, ha, hf, hr⟩ := h
    rw [getElem?_setChild] at hc
    split at hc
    next hij =>
      subst hij
      obtain ⟨old, ho, rfl⟩ := Option.map_eq_some_iff.mp hc
      exact ⟨hh, old, ho, (hbody old ho).symm.trans ha, hfired old hf, hrun old hr⟩
    next => exact ⟨hh, child, hc, ha, hf, hr⟩
  running j h := by
    unfold isFinished at h ⊢
    rw [getElem?_setChild] at h
    split at h
    next hij =>
      subst hij
      cases hc : site.children[i]? with
      | none => simp [hc] at h
      | some child =>
        have hr : (change child).condition = .running := by simpa [hc, Child.isFinished] using h
        simp [Child.isFinished, hrun child hr]
    next => exact h

theorem Ages.fire (site : Site) (i : Nat) : site.Ages (site.fire i) :=
  Ages.setChild site i (fun _ _ => rfl) (fun _ h => by simp at h) (fun _ h => h)

theorem not_live_fire (site : Site) (i : Nat) (a : Assignment) : ¬(site.fire i).Live i a := by
  rintro ⟨-, child, hc, -, hf, -⟩
  rw [fire, getElem?_setChild, if_pos rfl] at hc
  obtain ⟨old, -, rfl⟩ := Option.map_eq_some_iff.mp hc
  simp at hf

theorem live_fire_of_ne {site : Site} {i j : Nat} {a : Assignment} (h : i ≠ j) :
    (site.fire i).Live j a ↔ site.Live j a :=
  live_setChild_of_ne h

theorem children_finish (site : Site) (i : Nat) (condition : Condition) :
    (site.finish i condition).children =
      (site.setChild i fun child => { child with condition := condition }).children := rfl

theorem Ages.finish (site : Site) (i : Nat) {condition : Condition} (h : condition ≠ .running) :
    site.Ages (site.finish i condition) :=
  (Ages.hub_trace site _ site.trace site.exits).trans
    (Ages.setChild _ i (fun _ _ => rfl) (fun _ hf => hf) fun _ hr => absurd hr h)

theorem live_finish_of_ne {site : Site} {i j : Nat} {condition : Condition} {a : Assignment}
    (h : i ≠ j) : (site.finish i condition).Live j a ↔ site.Live j a := by
  unfold finish
  rw [live_setChild_of_ne h]
  exact Iff.rfl

theorem live_abort_of_ne {site : Site} {i j : Nat} {a : Assignment} (h : i ≠ j) :
    (site.abort i).Live j a ↔ site.Live j a := by
  unfold abort
  split
  · split
    · exact Iff.rfl
    · exact live_finish_of_ne h
  · exact Iff.rfl

theorem isFinished_finish {site : Site} (i : Nat) {condition : Condition}
    (h : condition ≠ .running) : (site.finish i condition).isFinished i = true := by
  rw [isFinished, children_finish, getElem?_setChild, if_pos rfl]
  cases site.children[i]? with
  | none => rfl
  | some child => simp [Child.isFinished, h]

theorem isFinished_abort (site : Site) (i : Nat) : (site.abort i).isFinished i = true := by
  unfold abort
  split
  next child hc =>
    split
    next hf => rw [isFinished_of_getElem? hc, hf]
    next => exact isFinished_finish i (by simp)
  next hc => simp [isFinished, hc]

theorem Grows.spawn (site : Site) (body : Body) : site.Grows (site.spawn body).1 where
  settings := rfl
  reports := rfl
  halted h := h
  length := by simp [Site.spawn]
  assignment i hi := by simp [assignment?, Site.spawn, List.getElem?_append_left hi]
  live i a hi h := by
    obtain ⟨hh, child, hc, hrest⟩ := h
    rw [Site.spawn, List.getElem?_append_left hi] at hc
    exact ⟨hh, child, hc, hrest⟩
  running i hi h := by
    rw [isFinished, Site.spawn, List.getElem?_append_left hi] at h
    exact h

theorem getElem?_spawn_self (site : Site) (body : Body) :
    (site.spawn body).1.children[site.children.length]? = some { body := body } := by
  simp [spawn]

theorem live_spawn_of_lt {site : Site} {body : Body} {i : Nat} {a : Assignment}
    (hi : i < site.children.length) : (site.spawn body).1.Live i a ↔ site.Live i a := by
  unfold Live
  rw [spawn, List.getElem?_append_left hi]

theorem live_spawn {site : Site} {body : Body} {i : Nat} {a : Assignment}
    (h : (site.spawn body).1.Live i a) :
    site.Live i a ∨ i = site.children.length ∧ ({ body := body } : Child).assignment? = some a := by
  rcases Nat.lt_or_ge i site.children.length with hlt | hge
  · exact .inl ((live_spawn_of_lt hlt).mp h)
  · right
    have hlen := h.lt_length
    rw [spawn, List.length_append, List.length_singleton] at hlen
    obtain rfl : i = site.children.length := by omega
    obtain ⟨-, child, hc, ha, -⟩ := h
    rw [getElem?_spawn_self] at hc
    cases hc
    exact ⟨rfl, ha⟩

end Site

end AddonWatch

import AddonWatch.Proofs.Drafts
import AddonWatch.Proofs.Pace

namespace AddonWatch

theorem Settling.lt_deadline {s : Settling} {site : Site} (h : s.step site = none) :
    site.now < s.deadline := by
  unfold step at h
  dsimp only at h
  split at h
  · split at h
    · cases h
    next hlate => exact Nat.lt_of_not_le hlate
  · cases h
  · cases h

theorem Opening.lt_deadline {o : Opening} {site : Site} (h : o.step site = none) :
    site.now < o.deadline := by
  unfold step at h
  split at h
  · cases h
  · cases h
  · cases h
  · split at h
    · cases h
    next hlate => exact Nat.lt_of_not_le hlate

theorem Write.lt_deadline {write : Write} {a : Assignment} {author : Option Nat} {site : Site}
    (h : write.step a author site = none) : site.now < write.deadline := by
  unfold step at h
  split at h
  · cases h
  · split at h
    · cases h
    next hlate => exact Nat.lt_of_not_le hlate

/-- The child that keeps a roster from closing is waited for until its deadline. -/
theorem Closing.lt_deadline {c : Closing} {site : Site} (h : c.step site = none) :
    ∃ e ∈ c.pending, site.now < e.2.deadline := by
  unfold step at h
  split at h
  next => cases h
  next hopen =>
    cases hp : c.pending with
    | nil => simp [hp] at hopen
    | cons e rest =>
      obtain ⟨key, settling⟩ := e
      refine ⟨(key, settling), by simp, ?_⟩
      rw [hp, Option.map_eq_none_iff, settleOne] at h
      split at h
      · cases h
      · cases h
      next hwaits => exact Settling.lt_deadline hwaits

theorem Closing.mem_of_settleOne {pending rest : List (AddonKey × Settling)} {site next : Site}
    (h : settleOne site pending = some (next, rest)) : ∀ e ∈ rest, e ∈ pending := by
  induction pending generalizing rest with
  | nil => simp [settleOne] at h
  | cons first others ih =>
    unfold settleOne at h
    split at h
    next =>
      cases h
      exact fun e he => List.mem_cons_of_mem _ he
    next =>
      cases h
      exact fun e he => List.mem_cons_of_mem _ he
    next =>
      obtain ⟨⟨after, left⟩, hs, h⟩ := Option.map_eq_some_iff.mp h
      cases h
      intro e he
      rcases List.mem_cons.mp he with rfl | he
      · exact List.mem_cons_self
      · exact List.mem_cons_of_mem _ (ih hs e he)

theorem Closing.mem_of_step {c c' : Closing} {site next : Site}
    (h : c.step site = some (next, some c')) : ∀ e ∈ c'.pending, e ∈ c.pending := by
  unfold step at h
  split at h
  · cases h
  · obtain ⟨⟨after, left⟩, hs, h⟩ := Option.map_eq_some_iff.mp h
    cases h
    exact mem_of_settleOne hs

namespace Reconciling

/-- The reconciliation that began then has neither waited for the former watcher longer than the
grace period, nor for the new one longer than a call may take. -/
def InTime (settings : Settings) (began now : Nat) : Reconciling → Prop
  | .fresh _ => now = began
  | .stopping settling => now ≤ settling.deadline ∧
    settling.deadline ≤ began + settings.cancelGrace.millis
  | .replacing _ _ _ settling =>
    now ≤ settling.deadline ∧ settling.deadline ≤ began + settings.cancelGrace.millis
  | .opening _ attempt =>
    now ≤ attempt.deadline ∧
      attempt.deadline ≤ began + settings.cancelGrace.millis + settings.callTimeout.millis

variable {work work' : Reconciling} {site next : Site} {roster roster' : Roster}
  {settings : Settings} {began now moment : Nat}

theorem InTime.le (h : work.InTime settings began now) :
    now ≤ began + settings.cancelGrace.millis + settings.callTimeout.millis := by
  cases work <;> simp only [InTime] at h <;> omega

theorem InTime.moves (h : work.InTime site.settings began site.now)
    (hm : work.Moves site roster next roster' (.inl work')) :
    work'.InTime site.settings began next.now := by
  cases hm with
  | stops => exact ⟨Nat.le_add_right _ _, Nat.le_of_eq (by rw [← h])⟩
  | asks =>
    have hbegan : site.now = began := h
    simp only [InTime, Opening.start, Site.mark]
    omega
  | replaces => exact ⟨Nat.le_add_right _ _, Nat.le_of_eq (by rw [← h])⟩
  | replaced key addon reference settling after hs =>
    have hnow : after.now = site.now := hs.windsDown.now
    have hsettings : after.settings = site.settings := hs.windsDown.ages.settings
    obtain ⟨hle, hdeadline⟩ := h
    simp only [InTime, Opening.start, Site.mark, hnow, hsettings]
    omega
  | waits => exact h

/-- A reconciliation that waits is waiting for a timer of its own that is still to come. -/
theorem InTime.waits (h : work.InTime settings began site.now)
    (hstep : work.step roster site = none)
    (ht : ∀ timer ∈ work.timers, site.now < timer → moment ≤ timer) :
    work.InTime settings began moment := by
  cases work with
  | fresh text => cases hstep
  | stopping settling =>
    have hlt := Settling.lt_deadline (Option.map_eq_none_iff.mp hstep)
    exact ⟨ht _ (List.mem_singleton_self _) hlt, h.2⟩
  | replacing key addon reference settling =>
    have hlt := Settling.lt_deadline (Option.map_eq_none_iff.mp hstep)
    exact ⟨ht _ (List.mem_singleton_self _) hlt, h.2⟩
  | opening key attempt =>
    have hlt := Opening.lt_deadline (Option.map_eq_none_iff.mp hstep)
    exact ⟨ht _ List.mem_cons_self hlt, h.2⟩

end Reconciling

/-- A watcher that waits for a write goes on with the one it waited for, or has begun it now. -/
theorem Follower.Moves.deadline {f f' : Follower} {i : Nat} {site next : Site} {write : Write}
    (h : f.Moves i site next (.inl f')) (hw : f'.phase = .writing write) :
    (∃ old, f.phase = .writing old ∧ write.deadline = old.deadline ∧
      site.now < write.deadline) ∨
    (∀ old, f.phase ≠ .writing old) ∧
      write.deadline = site.now + site.settings.callTimeout.millis := by
  cases h with
  | sights sighting =>
    unfold sighted at hw
    dsimp only at hw
    split at hw <;> cases hw
  | misses fault hub text hphase =>
    rw [hphase] at hw
    cases hw
  | begins addon observed hphase =>
    cases hw
    exact .inr ⟨fun old hold => by simp [hphase] at hold, rfl⟩
  | awaits old call hphase hcall hdeadline =>
    cases hw
    exact .inl ⟨old, hphase, rfl, hdeadline⟩
  | _ => cases hw

/-- A child that runs a watcher behind its own step ran it before, and the watcher has moved. -/
theorem Site.moves_of_stepChild {site next : Site} {i : Nat} {f' : Follower}
    (h : site.stepChild i = some next) (hb : next.bodies[i]? = some (.guarded f'))
    (hrun : next.isFinished i = false) : ∃ child f after, site.children[i]? = some child ∧
      child.body = .guarded f ∧ child.isFinished = false ∧ f.Moves i site after (.inl f') := by
  obtain ⟨child, hc, hup, hguarded⟩ := Site.stepChild_moves h
  have hup : child.isFinished = false := by simp [Child.isFinished, hup]
  have hended : ∀ (mid : Site) (ending : Ending), mid.endBare i ending ≠ next := by
    rintro mid ending rfl
    have hdone : (mid.endBare i ending).isFinished i = true :=
      isFinished_finish i (by cases ending <;> simp)
    rw [hrun] at hdone
    cases hdone
  have hchanged : ∀ (mid : Site) (change : Child → Child), mid.children[i]? = some child →
      mid.setChild i change = next → (change child).body = .guarded f' := by
    rintro mid change hm rfl
    obtain ⟨child', hc', hb'⟩ := getElem?_bodies.mp hb
    rw [getElem?_setChild, if_pos rfl, hm] at hc'
    exact Option.some.inj hc' ▸ hb'
  cases hbody : child.body with
  | guarded f =>
    rcases (hguarded f hbody).goesOn_or_finished with ⟨after, f'', hm, rfl⟩ | hdone
    · have hafter : after.children[i]? = some child := by rw [hm.children_eq]; exact hc
      have hlt := (List.getElem?_eq_some_iff.mp (getElem?_bodies.mpr ⟨child, hafter, hbody⟩)).1
      rw [bodies_withFollower f'' hafter hbody, List.getElem?_set_self hlt] at hb
      obtain rfl := Body.guarded.inj (Option.some.inj hb)
      exact ⟨child, f, after, hc, hbody, hup, hm⟩
    · rw [hrun] at hdone
      cases hdone
  | bare f =>
    simp only [stepChild, hc, hbody, hup, Option.bind_eq_bind, Option.bind_some,
      Bool.false_eq_true, if_false] at h
    obtain ⟨⟨after, result⟩, hstep, h⟩ := Option.map_eq_some_iff.mp h
    cases result with
    | inl f'' =>
      have hafter := (Spares.follower hstep (i + 1)).children i (by omega)
      have hsame := hchanged after _ (hafter.trans hc) h
      simp [Child.withFollower, hbody] at hsame
    | inr ending => exact absurd h (hended after ending)
  | timed timed =>
    simp only [stepChild, hc, hbody, hup, Option.bind_eq_bind, Option.bind_some,
      Bool.false_eq_true, if_false] at h
    obtain ⟨result, -, h⟩ := Option.map_eq_some_iff.mp h
    cases result with
    | inl t => cases hchanged site _ hc h
    | inr ending => exact absurd h (hended site ending)

/-- A desk comes to a reconciliation by beginning with it, or by going on with it. -/
theorem Desk.Moves.reconciling {desk desk' : Desk} {isSealed : Bool} {site site' : Site}
    {text : String} {work : Reconciling} {rest : List String}
    (h : desk.Moves isSealed site site' desk')
    (hphase : desk'.phase = .reconciling text work rest) :
    (desk.phase = .working (text :: rest) ∧ work = .fresh text) ∨
      ∃ before roster, desk.phase = .reconciling text before rest ∧
        before.Moves site desk.roster site' roster (.inl work) := by
  cases h with
  | begins key others hworking =>
    cases hphase
    exact .inl ⟨hworking, rfl⟩
  | goesOn key before work' others next roster hold _ hm =>
    cases hphase
    exact .inr ⟨before, roster, hold, hm⟩
  | concludes key before others next after roster verdict _ hold _ hm hc =>
    rcases hc.phase with hafter | ⟨message, hafter⟩ <;> rw [hphase] at hafter <;> cases hafter
  | turns alarms hidle =>
    rw [show desk.phase = _ from hphase] at hidle
    cases hidle
  | wakes => cases hphase
  | _ => cases hphase

/-- Told to stop then, the desk is over, or waits for its watchers until that moment at most, or has
not had its turn yet. -/
def Desk.ClosesBy (desk : Desk) (began limit now : Nat) : Prop :=
  desk.isOver = true ∨
    (∃ closing, desk.phase = .closing closing ∧ ∀ e ∈ closing.pending, e.2.deadline ≤ limit) ∨
    now = began ∧ ∀ closing, desk.phase ≠ .closing closing

theorem Desk.Moves.closesBy {desk desk' : Desk} {isSealed : Bool} {site site' : Site} {began : Nat}
    (h : desk.Moves isSealed site site' desk') (hh : site.halted = true)
    (hw : desk.ClosesBy began (began + site.settings.cancelGrace.millis) site.now) :
    desk'.ClosesBy began (began + site.settings.cancelGrace.millis) site'.now := by
  have hgoing : site.halted ≠ false := by simp [hh]
  have hnow := h.now
  rw [Desk.ClosesBy, h.not_over] at hw
  have hw := hw.resolve_left (by simp)
  cases h with
  | closes alarms hphase =>
    have hbegan : site.now = began := by
      rcases hw with ⟨closing, hclosing, -⟩ | ⟨hbegan, -⟩
      · rw [hphase] at hclosing
        cases hclosing
      · exact hbegan
    refine .inr (.inl ⟨_, rfl, fun e he => ?_⟩)
    obtain ⟨entry, -, rfl⟩ := List.mem_map.mp he
    exact Nat.le_of_eq (by rw [hbegan])
  | rests hphase =>
    rcases hw with ⟨closing, hclosing, -⟩ | ⟨hbegan, -⟩
    · rw [hphase] at hclosing
      cases hclosing
    · exact .inr (.inr ⟨hbegan, by simp⟩)
  | drops _ hphase =>
    rcases hw with ⟨closing, hclosing, -⟩ | ⟨hbegan, -⟩
    · rcases hphase with ⟨keys, hphase⟩ | ⟨key, work, rest, hphase⟩ <;>
        rw [hphase] at hclosing <;> cases hclosing
    · exact .inr (.inr ⟨hbegan, by simp⟩)
  | settles closing closing' next hphase hc =>
    rcases hw with ⟨old, hold, hlimit⟩ | ⟨-, hnone⟩
    · obtain rfl := DeskPhase.closing.inj (hphase.symm.trans hold)
      exact .inr (.inl ⟨closing', rfl, fun e he => hlimit e (Closing.mem_of_step hc e he)⟩)
    · exact absurd hphase (hnone closing)
  | finishes => exact .inl rfl
  | wakes _ _ _ hn => exact absurd hn hgoing
  | takes _ _ _ _ hn => exact absurd hn hgoing
  | looks _ _ _ hn => exact absurd hn hgoing
  | turns _ _ hn => exact absurd hn hgoing
  | begins _ _ _ hn => exact absurd hn hgoing
  | goesOn _ _ _ _ _ _ _ hn => exact absurd hn hgoing
  | concludes _ _ _ _ _ _ _ _ _ hn => exact absurd hn hgoing

/-- A desk that is told to stop rests only when it is over, or while it waits for a watcher. -/
theorem Desk.closing_of_rest {desk : Desk} {isSealed : Bool} {site : Site}
    (h : desk.step isSealed site = none) (hh : site.halted = true) : desk.isOver = true ∨
      ∃ closing, desk.phase = .closing closing ∧ closing.step site = none := by
  cases hphase : desk.phase with
  | idle => simp [step, hphase, hh] at h
  | working keys => cases keys <;> simp [step, hphase, hh] at h
  | reconciling text work rest => simp [step, hphase, hh] at h
  | closing closing =>
    simp only [step, hphase] at h
    exact .inr ⟨closing, rfl, Option.map_eq_none_iff.mp h⟩
  | finished => simp [isOver, hphase]
  | crashed => simp [isOver, hphase]

end AddonWatch

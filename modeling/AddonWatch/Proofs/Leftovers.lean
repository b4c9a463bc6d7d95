import AddonWatch.Proofs.Accounting

namespace AddonWatch

/-- An account can be counted if it could before, and no more wait now than can be counted. -/
theorem countable_cons {incident : Incident} {log : List Incident} :
    Countable (incident :: log) ↔ Countable log ∧ (incident :: log).count .sighted ≤
      (incident :: log).count .applied + Follower.mostUnapplied := by
  constructor
  · exact fun h => ⟨fun past hpast => h past (hpast.trans (List.suffix_cons incident log)),
      h _ (List.suffix_refl _)⟩
  · rintro ⟨hlog, hlast⟩ past hpast
    rcases List.suffix_cons_iff.mp hpast with rfl | hold
    · exact hlast
    · exact hlog past hold

namespace Follower

/-- What holds of every account, however many sightings come: none is applied that did not wait, and
as long as those that wait can be counted none is lost. -/
structure Owes (log : List Incident) (f : Follower) : Prop where
  covered : log.count .applied + f.unapplied ≤ log.count .sighted
  exact_iff : log.count .applied + f.unapplied = log.count .sighted ↔ Countable log
  waits : f.phase = .listening → (f.retryAt.isSome ↔ 0 < f.unapplied)
  works : f.phase ≠ .listening → f.retryAt = none
  writes : ∀ write, f.phase = .writing write → 0 < f.unapplied

namespace Owes

variable {log : List Incident} {f f' : Follower} {site : Site}

theorem pos_of_isAtWork (h : f.Owes log) (hwork : f.IsAtWork) : 0 < f.unapplied := by
  rcases hwork with ⟨-, hpos⟩ | ⟨write, hphase⟩
  · exact hpos
  · exact h.writes write hphase

theorem retryAt_of_isAtWork (h : f.Owes log) (hwork : f.IsAtWork) : f.retryAt = none := by
  rcases hwork with ⟨hphase, -⟩ | ⟨write, hphase⟩
  · exact h.works (by simp [hphase])
  · exact h.works (by simp [hphase])

/-- A sighting that cannot be counted any more is lost for good. -/
theorem sights (h : f.Owes log) (sighting : Sighting) :
    (f.sighted sighting).Owes (.sighted :: log) := by
  have hcovered := h.covered
  have hexact := h.exact_iff
  have hmin : (f.sighted sighting).unapplied = min (f.unapplied + 1) mostUnapplied := rfl
  have hpos : 0 < (f.sighted sighting).unapplied := by
    rw [hmin]
    exact Nat.lt_min.mpr ⟨Nat.succ_pos _, by decide⟩
  refine ⟨?_, ?_, fun hl => ?_, fun hw => ?_, fun _ _ => hpos⟩
  · rw [hmin, List.count_cons_self, List.count_cons_of_ne (by decide)]
    omega
  · rw [hmin, countable_cons, List.count_cons_self, List.count_cons_of_ne (by decide), ← hexact]
    omega
  · by_cases hr : f.retryAt.isSome
    · exact ⟨fun _ => hpos, fun _ => hr⟩
    · simp [Follower.sighted, hr] at hl
  · by_cases hr : f.retryAt.isSome
    · simp [Follower.sighted, hr] at hw
    · simpa [Follower.sighted] using hr

theorem applies (h : f.Owes log) (hwork : f.IsAtWork) :
    (f.appliedOne site).Owes (.applied :: log) := by
  have hcovered := h.covered
  have hexact := h.exact_iff
  have hlast : log.count .applied + f.unapplied = log.count .sighted →
      log.count .sighted ≤ log.count .applied + mostUnapplied :=
    fun he => hexact.mp he log (List.suffix_refl log)
  have hpos := h.pos_of_isAtWork hwork
  have hone : (f.appliedOne site).unapplied = f.unapplied - 1 := rfl
  have hnone : (f.appliedOne site).retryAt = none := h.retryAt_of_isAtWork hwork
  refine ⟨?_, ?_, by simp [appliedOne], fun _ => hnone, by simp [appliedOne]⟩
  · rw [hone, List.count_cons_self, List.count_cons_of_ne (by decide)]
    omega
  · rw [hone, countable_cons, List.count_cons_self, List.count_cons_of_ne (by decide), ← hexact]
    omega

/-- An incident that is neither a sighting nor an application leaves the account as it is. -/
theorem passes {incident : Incident} (h : f.Owes log) (hs : incident ≠ .sighted)
    (ha : incident ≠ .applied) (hunapplied : f'.unapplied = f.unapplied)
    (hwaits : f'.phase = .listening → (f'.retryAt.isSome ↔ 0 < f.unapplied))
    (hworks : f'.phase ≠ .listening → f'.retryAt = none)
    (hwrites : ∀ write, f'.phase = .writing write → 0 < f.unapplied) :
    f'.Owes (incident :: log) := by
  have hcovered := h.covered
  refine ⟨?_, ?_, hunapplied ▸ hwaits, hworks, hunapplied ▸ hwrites⟩
  · rw [hunapplied, List.count_cons_of_ne hs, List.count_cons_of_ne ha]
    exact hcovered
  · rw [hunapplied, countable_cons, List.count_cons_of_ne hs, List.count_cons_of_ne ha, h.exact_iff]
    exact ⟨fun hc => ⟨hc, hc log (List.suffix_refl log)⟩, And.left⟩

theorem putOff (h : f.Owes log) (hwork : f.IsAtWork) (backoff : Backoff) (time moment : Nat) :
    (f.putOff backoff moment).Owes (.failed time :: log) := by
  have hpos := h.pos_of_isAtWork hwork
  refine h.passes (by simp) (by simp) rfl (fun _ => ?_) (fun hw => ?_) (fun write hw => ?_)
  · simp [Follower.putOff, hpos]
  · cases hw rfl
  · cases hw

theorem turns {incident? : Option Incident} (h : f.Owes log) (ht : f.Turns site incident? f') :
    f'.Owes (incident?.toList ++ log) := by
  cases ht with
  | due hphase => exact ⟨h.covered, h.exact_iff, by simp, by simp, by simp⟩
  | sights sighting => exact h.sights sighting
  | misses => exact h.passes (by decide) (by decide) rfl h.waits h.works h.writes
  | drains hphase hnone =>
    have hr := h.works (by simp [hphase])
    exact ⟨h.covered, h.exact_iff, by simp [hr, hnone], by simp, by simp⟩
  | writes write hwork =>
    exact ⟨h.covered, h.exact_iff, by simp, fun _ => h.retryAt_of_isAtWork hwork,
      fun _ _ => h.pos_of_isAtWork hwork⟩
  | applies hwork => exact h.applies hwork
  | fails hwork => exact h.putOff hwork _ _ _

end Owes

theorem Ran.owes {policy : RetryPolicy} {a : Assignment} {feed : Nat} {log : List Incident}
    {f : Follower} (h : Ran policy a feed log f) : f.Owes log := by
  induction h with
  | start =>
    have hnone : Countable [] := countable_of_length_le (by decide)
    exact ⟨Nat.le_refl _, by simp [Follower.start, hnone], by simp [Follower.start],
      fun _ => rfl, by simp [Follower.start]⟩
  | step i site next log f f' h hpolicy hstep ih => exact ih.turns (step_turns hstep)

/-- An uncancelled watcher returns only when it finds the end of its stream and has no retry that is
due. -/
theorem returns_cases {f : Follower} {i : Nat} {site next : Site}
    (h : f.step i false site = some (next, .inr .returns)) :
    f.phase = .listening ∧ (site.hub.receive f.feed).1 = .ended ∧
      ∀ moment, f.retryAt = some moment → site.now < moment := by
  have hmoves := step_moves h
  cases hmoves with
  | ends hub text hphase hr =>
    refine ⟨hphase, by rw [hr], fun moment hretry => ?_⟩
    by_contra hdue
    simp only [Follower.step, Bool.false_eq_true, if_false, hphase, hretry] at h
    rw [if_pos (by simpa using hdue)] at h
    simp at h

/-- A watcher that nothing cancels returns at the end of its stream. By then it has applied every
sighting exactly if no retry is pending, as long as no more sightings waited than can be counted; a
retry that is due is taken up first, but one that is not due yet is given up, and with it all
sightings that wait. -/
theorem all_applied_at_end {policy : RetryPolicy} {a : Assignment} {feed i : Nat}
    {log : List Incident} {f : Follower} {site next : Site} (h : Ran policy a feed log f)
    (hstep : f.step i false site = some (next, .inr .returns)) :
    (site.hub.receive f.feed).1 = .ended ∧
    (log.count .applied = log.count .sighted ↔ f.retryAt = none ∧ Countable log) ∧
    (Countable log → log.count .sighted = log.count .applied + f.unapplied) ∧
    (f.retryAt = none ↔ f.unapplied = 0) ∧
    ∀ moment, f.retryAt = some moment → site.now < moment ∧ ∀ j later, moment ≤ later.now →
      f.step j false later = some (later, .inl { f with retryAt := none, phase := .applying }) := by
  obtain ⟨hphase, hended, hahead⟩ := returns_cases hstep
  have ho := h.owes
  have hcovered := ho.covered
  have hpending : f.retryAt = none ↔ f.unapplied = 0 := by
    rw [← Option.not_isSome_iff_eq_none, ho.waits hphase]
    omega
  refine ⟨hended, ?_, fun hfew => (ho.exact_iff.mpr hfew).symm, hpending,
    fun moment hretry => ⟨hahead moment hretry, fun j later hdue => ?_⟩⟩
  · rw [hpending, ← ho.exact_iff]
    omega
  · simp [Follower.step, hphase, hretry, hdue]

theorem exists_of_runOver (policy : RetryPolicy) (sites : List Site)
    {p : List Incident × Follower → Bool} (hpolicy : ∀ site ∈ sites, site.settings.retry = policy)
    (hr : (runOver sites ([], start policy Supervision.firstAssignment 0)).any p = true) :
    ∃ log f, Ran policy Supervision.firstAssignment 0 log f ∧ p (log, f) = true := by
  obtain ⟨⟨log, f⟩, hrun, hp⟩ := (Option.any_eq_true ..).mp hr
  exact ⟨log, f, ran_of_runOver .start hpolicy hrun, hp⟩

/-- Nothing is left in the stream, which has ended. -/
def drained (site : Site) : Site :=
  { site with hub := { site.hub with feeds := [{ topic := none, closed := true }] } }

/-- A second later status writes are granted. -/
def granted (site : Site) : Site :=
  { site with now := 1000, hub := { site.hub with writes := {} } }

/-- The watcher comes to the end of its stream there, as far as it can be computed. -/
def returnsOn (f : Follower) (site : Site) : Bool :=
  (f.step 0 false site).any fun result => result.2.getRight? = some .returns

theorem step_of_returnsOn {f : Follower} {site : Site} (h : f.returnsOn site = true) :
    ∃ next, f.step 0 false site = some (next, .inr .returns) := by
  obtain ⟨⟨next, result⟩, hstep, hr⟩ := (Option.any_eq_true ..).mp h
  obtain rfl := Sum.getRight?_eq_some_iff.mp (of_decide_eq_true hr)
  exact ⟨next, hstep⟩

/-- A write that failed is tried again and granted before the stream ends. -/
theorem all_applied_at_end_first : ∃ (log : List Incident) (f : Follower) (site next : Site),
    Ran ({} : Settings).retry Supervision.firstAssignment 0 log f ∧
      f.step 0 false site = some (next, .inr .returns) ∧ log = [.applied, .failed 0, .sighted] ∧
      f.retryAt = none ∧ Countable log ∧ log.count .applied = log.count .sighted := by
  obtain ⟨log, f, hran, hp⟩ := exists_of_runOver ({} : Settings).retry
    (List.replicate 3 (conflicted ({} : Settings).retry) ++
      List.replicate 4 (granted (conflicted ({} : Settings).retry)))
    (p := fun (log, f) => log = [.applied, .failed 0, .sighted] && f.retryAt = none &&
      f.returnsOn (drained (conflicted ({} : Settings).retry)))
    (by simp [granted, conflicted]) (by decide +kernel)
  simp only [Bool.and_eq_true, decide_eq_true_eq] at hp
  obtain ⟨⟨hlog, hnone⟩, hreturns⟩ := hp
  obtain ⟨next, hstep⟩ := step_of_returnsOn hreturns
  have hfew : Countable log := countable_of_length_le (by rw [hlog]; decide)
  obtain ⟨-, hall, -⟩ := all_applied_at_end hran hstep
  exact ⟨log, f, _, next, hran, hstep, hlog, hnone, hfew, hall.mpr ⟨hnone, hfew⟩⟩

/-- A watcher that nothing cancels returns without having applied its one sighting: the write met a
conflict, and the stream ended before the retry was due. -/
theorem abandoned_sighting : ∃ (log : List Incident) (f : Follower) (site next : Site),
    Ran ({} : Settings).retry Supervision.firstAssignment 0 log f ∧
      f.step 0 false site = some (next, .inr .returns) ∧ log = [.failed 0, .sighted] ∧
      log.count .sighted = 1 ∧ log.count .applied = 0 := by
  obtain ⟨log, f, hran, hp⟩ := exists_of_runOver ({} : Settings).retry
    (List.replicate 3 (conflicted ({} : Settings).retry))
    (p := fun (log, f) => log = [.failed 0, .sighted] &&
      f.returnsOn (drained (conflicted ({} : Settings).retry)))
    (by simp [conflicted]) (by decide +kernel)
  simp only [Bool.and_eq_true, decide_eq_true_eq] at hp
  obtain ⟨hlog, hreturns⟩ := hp
  obtain ⟨next, hstep⟩ := step_of_returnsOn hreturns
  exact ⟨log, f, _, next, hran, hstep, hlog, by rw [hlog]; decide, by rw [hlog]; decide⟩

end Follower

end AddonWatch

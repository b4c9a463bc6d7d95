import AddonWatch.Proofs.Delays
import AddonWatch.Proofs.OneWatcher

namespace AddonWatch

/-- What can happen to a watcher that is to be accounted for: a sighting, an error on its stream, or
the end of an application. -/
inductive Incident where
  | sighted
  | missed
  | applied
  | failed (time : Nat)
deriving DecidableEq, Repr, Inhabited

/-- The times of the failures behind the last success, the latest first. -/
def setbacks : List Incident → List Nat
  | [] => []
  | .applied :: _ => []
  | .failed time :: log => time :: setbacks log
  | .sighted :: log => setbacks log
  | .missed :: log => setbacks log

/-- At no time do more sightings wait than can be counted. -/
def Countable (log : List Incident) : Prop :=
  ∀ past, past <:+ log → past.count .sighted ≤ past.count .applied + Follower.mostUnapplied

theorem countable_of_length_le {log : List Incident} (h : log.length ≤ Follower.mostUnapplied) :
    Countable log := by
  intro past hpast
  have hcount := List.count_le_length (a := Incident.sighted) (l := past)
  have hlength := hpast.length_le
  omega

/-- One more sighting can be counted. -/
theorem Countable.room {log : List Incident} (h : Countable (.sighted :: log)) :
    log.count .sighted + 1 ≤ log.count .applied + Follower.mostUnapplied := by
  have hlast := h _ (List.suffix_refl _)
  rw [List.count_cons_self, List.count_cons_of_ne (by decide)] at hlast
  exact hlast

/-- Looking at the objects takes no time. -/
theorem Assignment.observe_frame (a : Assignment) (name : String) (site : Site) :
    (a.observe name site).1.now = site.now ∧ (a.observe name site).1.settings = site.settings := by
  unfold observe
  split
  · exact ⟨rfl, rfl⟩
  · split <;> exact ⟨rfl, rfl⟩

theorem Write.step_frame {w : Write} {a : Assignment} {author : Option Nat} {site next : Site}
    {result : Write ⊕ Verdict} (h : w.step a author site = some (next, result)) :
    next.now = site.now ∧ next.settings = site.settings := by
  unfold Write.step at h
  split at h
  next reply hcall =>
    cases h
    cases reply with
    | granted =>
      dsimp only
      split <;> exact ⟨rfl, rfl⟩
    | refused refusal => exact ⟨rfl, rfl⟩
    | crashed => exact ⟨rfl, rfl⟩
  next call hcall =>
    split at h
    · cases h
      exact ⟨rfl, rfl⟩
    · split at h
      · cases h
      · cases h
        exact ⟨rfl, rfl⟩

namespace Follower

/-- How the application that ends with the next step has ended. -/
def verdict? (f : Follower) (i : Nat) (site : Site) : Option Verdict :=
  match f.phase with
  | .listening => none
  | .applying => if f.unapplied = 0 then none else (f.assignment.observe f.name site).2.getRight?
  | .writing write => (write.step f.assignment (some i) site).bind (·.2.getRight?)

/-- What the next step is to the account. -/
def incident? (f : Follower) (i : Nat) (site : Site) : Option Incident :=
  match f.phase with
  | .listening =>
    if f.retryAt.any (· ≤ site.now) then none
    else match (site.hub.receive f.feed).1 with
      | .signal (.ok _) => some .sighted
      | .signal (.error _) => some .missed
      | _ => none
  | _ =>
    match f.verdict? i site with
    | some .done => some .applied
    | some (.failed _) => some (.failed site.now)
    | _ => none

/-- A watcher that runs uncancelled on an open stream, and its account, the latest incident first.
Between two steps anything may happen to the site. -/
inductive Ran (policy : RetryPolicy) (a : Assignment) (feed : Nat) :
    List Incident → Follower → Prop
  | start : Ran policy a feed [] (.start policy a feed)
  | step (i : Nat) (site next : Site) (log : List Incident) (f f' : Follower)
      (h : Ran policy a feed log f) (hpolicy : site.settings.retry = policy)
      (hstep : f.step i false site = some (next, .inl f')) :
      Ran policy a feed ((f.incident? i site).toList ++ log) f'

/-- A sighting is to be applied next, or its write is under way. -/
def IsAtWork (f : Follower) : Prop :=
  (f.phase = .applying ∧ 0 < f.unapplied) ∨ ∃ write, f.phase = .writing write

/-- All sightings that wait are put off to a moment. -/
def putOff (f : Follower) (backoff : Backoff) (moment : Nat) : Follower :=
  { f with backoff := backoff, retryAt := some moment, phase := .listening }

/-- What a step is to the account, and the watcher behind it. -/
inductive Turns (f : Follower) (site : Site) : Option Incident → Follower → Prop
  | due (hphase : f.phase = .listening) :
      Turns f site none { f with retryAt := none, phase := .applying }
  | sights (sighting : Sighting) (hphase : f.phase = .listening) :
      Turns f site (some .sighted) (f.sighted sighting)
  | misses : Turns f site (some .missed) f
  | drains (hphase : f.phase = .applying) (hnone : f.unapplied = 0) :
      Turns f site none { f with phase := .listening }
  | writes (write : Write) (hwork : f.IsAtWork) :
      Turns f site none { f with phase := .writing write }
  | applies (hwork : f.IsAtWork) :
      Turns f site (some .applied) (f.appliedOne site)
  | fails (hwork : f.IsAtWork) :
      Turns f site (some (.failed site.now))
        (f.putOff (site.settings.retry.next f.backoff).2
          (site.now + (site.settings.retry.next f.backoff).1.millis))

theorem turns_of_listening {f f' : Follower} {i : Nat} {site next : Site}
    (hphase : f.phase = .listening) (h : f.step i false site = some (next, .inl f')) :
    f.Turns site (f.incident? i site) f' := by
  simp only [Follower.step, Bool.false_eq_true, if_false, hphase] at h
  simp only [incident?, hphase]
  split at h
  next hdue =>
    rw [if_pos hdue]
    cases h
    exact .due hphase
  next hdue =>
    rw [if_neg hdue]
    rcases hr : site.hub.receive f.feed with ⟨signal | _ | _, hub⟩
    · cases signal with
      | ok sighting =>
        simp only [hr, received] at h
        cases h
        exact .sights sighting hphase
      | error fault =>
        simp only [hr, received] at h
        cases h
        exact .misses
    · simp only [hr, received] at h
      cases h
    · simp only [hr, received] at h
      cases h

/-- What has become of an application, where it goes on from `f`. -/
theorem turns_of_applied {f f' : Follower} {site after next : Site} {result : Write ⊕ Verdict}
    (hwork : f.IsAtWork) (hnow : after.now = site.now)
    (hsettings : after.settings = site.settings)
    (h : f.applied (after, result) = (next, .inl f')) :
    f.Turns site (match result.getRight? with
      | some .done => some .applied
      | some (.failed _) => some (.failed site.now)
      | _ => none) f' := by
  cases result with
  | inl write =>
    cases h
    exact .writes write hwork
  | inr verdict =>
    cases verdict with
    | done =>
      cases h
      rw [hsettings]
      exact .applies hwork
    | failed fault =>
      simp only [applied, concluded, hnow, hsettings] at h
      obtain ⟨-, h⟩ := Prod.mk.inj h
      split at h
      next =>
        cases h
        exact .fails hwork
      next => cases h
    | crashed => cases h

theorem step_turns {f f' : Follower} {i : Nat} {site next : Site}
    (h : f.step i false site = some (next, .inl f')) : f.Turns site (f.incident? i site) f' := by
  cases hphase : f.phase with
  | listening => exact turns_of_listening hphase h
  | applying =>
    simp only [Follower.step, Bool.false_eq_true, if_false, hphase] at h
    split at h
    next hnone =>
      cases h
      simp only [incident?, verdict?, hphase, if_pos hnone]
      exact .drains hphase hnone
    next hsome =>
      obtain ⟨hnow, hsettings⟩ := f.assignment.observe_frame f.name site
      have hturn := turns_of_applied (.inl ⟨hphase, Nat.pos_of_ne_zero hsome⟩) hnow hsettings
        (Option.some.inj h)
      simp only [incident?, verdict?, hphase, if_neg hsome]
      exact hturn
  | writing write =>
    simp only [Follower.step, Bool.false_eq_true, if_false, hphase] at h
    obtain ⟨⟨after, result⟩, hstep, h⟩ := Option.map_eq_some_iff.mp h
    obtain ⟨hnow, hsettings⟩ := Write.step_frame hstep
    have hturn := turns_of_applied (.inr ⟨write, hphase⟩) hnow hsettings h
    simp only [incident?, verdict?, hphase, hstep, Option.bind_some]
    exact hturn

/-- What holds between the account of a watcher and the watcher. -/
structure Balances (policy : RetryPolicy) (log : List Incident) (f : Follower) : Prop where
  counted : log.count .applied + f.unapplied = log.count .sighted
  waits : f.phase = .listening → (f.retryAt.isSome ↔ 0 < f.unapplied)
  works : f.phase ≠ .listening → f.retryAt = none
  writes : ∀ write, f.phase = .writing write → 0 < f.unapplied
  backoff : f.backoff = policy.reached (setbacks log).length
  due : ∀ moment, f.retryAt = some moment → ∃ time earlier, setbacks log = time :: earlier ∧
    moment = time + (policy.delay earlier.length).millis

namespace Balances

variable {policy : RetryPolicy} {log : List Incident} {f f' : Follower} {site : Site}

/-- No sighting is applied unless one waits, nor with a retry pending. -/
theorem of_isAtWork (h : f.Balances policy log) (hwork : f.IsAtWork) :
    0 < f.unapplied ∧ f.retryAt = none := by
  rcases hwork with ⟨hphase, hpos⟩ | ⟨write, hphase⟩
  · exact ⟨hpos, h.works (by simp [hphase])⟩
  · exact ⟨h.writes write hphase, h.works (by simp [hphase])⟩

theorem sights (h : f.Balances policy log) (sighting : Sighting)
    (hfew : Countable (.sighted :: log)) :
    (f.sighted sighting).Balances policy (.sighted :: log) := by
  have hcounted := h.counted
  have hroom := hfew.room
  have hone : (f.sighted sighting).unapplied = f.unapplied + 1 := by
    have hle : f.unapplied + 1 ≤ mostUnapplied := by omega
    rw [sighted]
    exact Nat.min_eq_left hle
  refine ⟨?_, fun hl => ?_, fun hw => ?_, fun write hw => ?_, h.backoff, h.due⟩
  · rw [hone]
    simp
    omega
  · by_cases hr : f.retryAt.isSome
    · rw [hone]
      simp [Follower.sighted, hr]
    · simp [Follower.sighted, hr] at hl
  · by_cases hr : f.retryAt.isSome
    · simp [Follower.sighted, hr] at hw
    · simpa [Follower.sighted] using hr
  · rw [hone]
    omega

theorem putOff {backoff : Backoff} {time moment : Nat} (h : f.Balances policy log)
    (hpos : 0 < f.unapplied) (hbackoff : backoff = policy.reached ((setbacks log).length + 1))
    (hmoment : moment = time + (policy.delay (setbacks log).length).millis) :
    (f.putOff backoff moment).Balances policy (.failed time :: log) := by
  refine ⟨?_, ?_, ?_, ?_, hbackoff, fun due hdue => ⟨time, setbacks log, rfl, ?_⟩⟩
  · simpa [Follower.putOff] using h.counted
  · simp [Follower.putOff, hpos]
  · simp [Follower.putOff]
  · simp [Follower.putOff]
  · exact (Option.some.inj hdue).symm.trans hmoment

theorem turns {incident? : Option Incident} (h : f.Balances policy log)
    (hpolicy : site.settings.retry = policy) (hfew : Countable (incident?.toList ++ log))
    (ht : f.Turns site incident? f') : f'.Balances policy (incident?.toList ++ log) := by
  cases ht with
  | due hphase =>
    exact ⟨h.counted, by simp, by simp, by simp, h.backoff, by simp⟩
  | sights sighting => exact h.sights sighting hfew
  | misses => exact ⟨by simpa using h.counted, h.waits, h.works, h.writes, h.backoff, h.due⟩
  | drains hphase hnone =>
    have hr := h.works (by simp [hphase])
    exact ⟨h.counted, by simp [hr, hnone], by simp, by simp, h.backoff, h.due⟩
  | writes write hwork =>
    obtain ⟨hpos, hr⟩ := h.of_isAtWork hwork
    exact ⟨h.counted, by simp, fun _ => hr, fun _ _ => hpos, h.backoff, h.due⟩
  | applies hwork =>
    obtain ⟨hpos, hr⟩ := h.of_isAtWork hwork
    have hcounted := h.counted
    refine ⟨?_, ?_, fun _ => hr, ?_, ?_, ?_⟩
    · simp [appliedOne]
      omega
    · simp [appliedOne]
    · simp [appliedOne]
    · simp [appliedOne, setbacks, hpolicy, RetryPolicy.reached]
    · simp [appliedOne, hr]
  | fails hwork =>
    obtain ⟨hpos, -⟩ := h.of_isAtWork hwork
    have hnext : site.settings.retry.next f.backoff =
        (policy.delay (setbacks log).length, policy.reached ((setbacks log).length + 1)) := by
      rw [hpolicy, h.backoff, RetryPolicy.next_reached]
    rw [hnext]
    exact h.putOff hpos rfl rfl

end Balances

theorem Ran.balances {policy : RetryPolicy} {a : Assignment} {feed : Nat} {log : List Incident}
    {f : Follower} (h : Ran policy a feed log f) (hfew : Countable log) :
    f.Balances policy log := by
  induction h with
  | start =>
    refine ⟨rfl, fun _ => ?_, fun _ => rfl, fun write hw => ?_, rfl, fun moment hm => ?_⟩
    · simp [Follower.start]
    · cases hw
    · cases hm
  | step i site next log f f' h hpolicy hstep ih =>
    have hpast : Countable log := fun past hp => hfew past (hp.trans (List.suffix_append _ _))
    exact (ih hpast).turns hpolicy hfew (step_turns hstep)

/-- The steps that are taken on these sites, one after the other. -/
def runOver : List Site → List Incident × Follower → Option (List Incident × Follower)
  | [], account => some account
  | site :: rest, (log, f) =>
    match f.step 0 false site with
    | some (_, .inl f') => runOver rest ((f.incident? 0 site).toList ++ log, f')
    | _ => none

theorem ran_of_runOver {policy : RetryPolicy} {a : Assignment} {feed : Nat} {sites : List Site}
    {log log' : List Incident} {f f' : Follower} (h : Ran policy a feed log f)
    (hpolicy : ∀ site ∈ sites, site.settings.retry = policy)
    (hr : runOver sites (log, f) = some (log', f')) : Ran policy a feed log' f' := by
  induction sites generalizing log f with
  | nil =>
    cases hr
    exact h
  | cons site rest ih =>
    simp only [Follower.runOver] at hr
    split at hr
    next next f₁ hstep =>
      have hfirst := hpolicy site (by simp)
      exact ih (h.step 0 site next log f f₁ hfirst hstep) (fun s hs => hpolicy s (by simp [hs])) hr
    next => cases hr

/-- A site where the object is seen, and where every status write meets a conflict. -/
def conflicted (policy : RetryPolicy) : Site where
  settings := { retry := policy }
  hub := {
    addons := [Supervision.specimen "a" "x"]
    configs := [⟨"cfg.test", "v1", "tests", ⟨some "ns", "x"⟩, Generation.ofInt? 1⟩]
    feeds := [{ topic := none, queue := [.ok ⟨⟨some "ns", "x"⟩, true⟩] }]
    writes := ⟨[], .refuse .conflict⟩ }

end Follower

end AddonWatch

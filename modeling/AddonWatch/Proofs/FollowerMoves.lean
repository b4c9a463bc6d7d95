import AddonWatch.Proofs.SiteChildren

namespace AddonWatch

/-- One sighting less waits, and the run of failures is over. -/
def Follower.appliedOne (f : Follower) (site : Site) : Follower :=
  { f with unapplied := f.unapplied - 1, backoff := site.settings.retry.start, phase := .applying }

/-- What a watcher that nothing has cancelled can do next, with the site and the watcher behind
it, or the way in which it ends. -/
inductive Follower.Moves (f : Follower) (i : Nat) (site : Site) : Site → Follower ⊕ Ending → Prop
  | due (moment : Nat) (hphase : f.phase = .listening) (hretry : f.retryAt = some moment)
      (htime : moment ≤ site.now) :
      Moves f i site site (.inl { f with retryAt := none, phase := .applying })
  | sights (sighting : Sighting) (hub : Hub) (hphase : f.phase = .listening)
      (hr : site.hub.receive f.feed = (.signal (.ok sighting), hub)) :
      Moves f i site { site with hub := hub } (.inl (f.sighted sighting))
  | misses (fault : Fault) (hub : Hub) (text : String) (hphase : f.phase = .listening)
      (hr : site.hub.receive f.feed = (.signal (.error fault), hub)) :
      Moves f i site (({ site with hub := hub } : Site).log .warn text) (.inl f)
  | ends (hub : Hub) (text : String) (hphase : f.phase = .listening)
      (hr : site.hub.receive f.feed = (.ended, hub)) :
      Moves f i site (site.log .warn text) (.inr .returns)
  | drains (hphase : f.phase = .applying) (h : f.unapplied = 0) :
      Moves f i site site (.inl { f with phase := .listening })
  | misreads (hphase : f.phase = .applying) (hfaulty : 0 < site.hub.faultyReads) :
      Moves f i site
        { site with hub := { site.hub with faultyReads := site.hub.faultyReads - 1 } }
        (.inr .crashes)
  | skips (next : Site) (remark : Option String) (hphase : f.phase = .applying)
      (hpos : 0 < f.unapplied)
      (hplan : f.assignment.plan f.name
        (site.hub.config? f.assignment.target (f.assignment.configName f.name))
        (site.hub.addon? f.assignment.key.objectName) = .skip remark)
      (hnext : next = site ∨ ∃ text, next = site.log .debug text) :
      Moves f i site next (.inl (f.appliedOne site))
  | begins (addon : Addon) (observed : Generation) (hphase : f.phase = .applying)
      (hpos : 0 < f.unapplied)
      (hplan : f.assignment.plan f.name
        (site.hub.config? f.assignment.target (f.assignment.configName f.name))
        (site.hub.addon? f.assignment.key.objectName) = .write addon observed) :
      Moves f i site { site with hub := { site.hub with writes := site.hub.writes.take.2 } }
        (.inl { f with phase := .writing ⟨⟨site.now, site.hub.writes.take.1⟩,
          site.now + site.settings.callTimeout.millis, addon, observed⟩ })
  | awaits (write : Write) (call : Call) (hphase : f.phase = .writing write)
      (hcall : write.call.advance site.now = .inl call) (hdeadline : site.now < write.deadline) :
      Moves f i site site (.inl { f with phase := .writing { write with call := call } })
  | commits (write : Write) (text : String) (old : Addon) (hphase : f.phase = .writing write)
      (hcall : write.call.advance site.now = .inr .granted)
      (hold : site.hub.addon? write.addon.objectName = some old) :
      Moves f i site ((write.commit (some i) site).log .debug text) (.inl (f.appliedOne site))
  | vanishes (write : Write) (hphase : f.phase = .writing write)
      (h : write.call.advance site.now = .inr .granted ∧
          site.hub.addon? write.addon.objectName = none ∨
        ∃ refusal key, write.call.advance site.now = .inr (.refused refusal) ∧
          refusal.fault write.addon.key "" = .notFound key) :
      Moves f i site site (.inl (f.appliedOne site))
  | fails (write : Write) (text : String) (backoff : Backoff) (moment : Nat)
      (hphase : f.phase = .writing write) (h : write.call.advance site.now ≠ .inr .granted) :
      Moves f i site (site.log .warn text)
        (.inl { f with backoff := backoff, retryAt := some moment, phase := .listening })
  | overflows (write : Write) (text : String) (hphase : f.phase = .writing write)
      (h : write.call.advance site.now ≠ .inr .granted) :
      Moves f i site (site.log .warn text) (.inr .crashes)
  | crashes (write : Write) (hphase : f.phase = .writing write)
      (hcall : write.call.advance site.now = .inr .crashed) :
      Moves f i site site (.inr .crashes)

/-- Only a missing addon makes a refused write count as done. -/
theorem Write.verdict_cases (fault : Fault) :
    (∃ key, fault = .notFound key ∧ Write.verdict fault = .done) ∨
      Write.verdict fault = .failed fault := by
  cases fault with
  | notFound key => exact .inl ⟨key, rfl, rfl⟩
  | _ => exact .inr rfl

namespace Follower

theorem step_cancelled (f : Follower) (i : Nat) (site : Site) :
    f.step i true site = some (site, .inr .returns) := rfl

theorem moves_of_listening {f : Follower} {i : Nat} {site next : Site} {result : Follower ⊕ Ending}
    (hphase : f.phase = .listening) (h : f.step i false site = some (next, result)) :
    f.Moves i site next result := by
  simp only [Follower.step, Bool.false_eq_true, if_false, hphase] at h
  split at h
  next hdue =>
    cases h
    obtain ⟨moment, hretry, ht⟩ := (Option.any_eq_true ..).mp hdue
    exact .due moment hphase hretry (of_decide_eq_true ht)
  next =>
    rcases hr : site.hub.receive f.feed with ⟨signal | _ | _, hub⟩
    · cases signal with
      | ok sighting =>
        simp only [hr, received] at h
        cases h
        exact .sights sighting hub hphase hr
      | error fault =>
        simp only [hr, received] at h
        cases h
        exact .misses fault hub _ hphase hr
    · simp only [hr, received] at h
      cases h
      exact .ends hub _ hphase hr
    · simp only [hr, received] at h
      cases h

theorem moves_of_applying {f : Follower} {i : Nat} {site next : Site} {result : Follower ⊕ Ending}
    (hphase : f.phase = .applying) (h : f.step i false site = some (next, result)) :
    f.Moves i site next result := by
  simp only [Follower.step, Bool.false_eq_true, if_false, hphase] at h
  split at h
  next hz =>
    cases h
    exact .drains hphase hz
  next hz =>
    have hpos : 0 < f.unapplied := Nat.pos_of_ne_zero hz
    unfold Assignment.observe at h
    split at h
    next hfaulty =>
      cases h
      exact .misreads hphase hfaulty
    next =>
      split at h
      next hplan =>
        cases h
        exact .skips _ _ hphase hpos hplan (.inl rfl)
      next remark hplan =>
        cases h
        exact .skips _ _ hphase hpos hplan (.inr ⟨_, rfl⟩)
      next addon observed hplan =>
        cases h
        exact .begins addon observed hphase hpos hplan

/-- A write that fails is put off, or its watcher breaks down: the clock cannot tell until when. -/
theorem moves_of_failing {f : Follower} {i : Nat} {site : Site} {write : Write} (fault : Fault)
    (hphase : f.phase = .writing write) (h : write.call.advance site.now ≠ .inr .granted) :
    f.Moves i site (f.concluded site (.failed fault)).1 (f.concluded site (.failed fault)).2 := by
  unfold concluded
  dsimp only
  split
  next => exact .fails write _ _ _ hphase h
  next => exact .overflows write _ hphase h

theorem moves_of_writing {f : Follower} {i : Nat} {site next : Site} {result : Follower ⊕ Ending}
    {write : Write} (hphase : f.phase = .writing write)
    (h : f.step i false site = some (next, result)) : f.Moves i site next result := by
  simp only [Follower.step, Bool.false_eq_true, if_false, hphase, Write.step] at h
  rcases hcall : write.call.advance site.now with call | reply
  · simp only [hcall] at h
    split at h
    next =>
      cases h
      exact moves_of_failing (.timeout site.settings.callTimeout) hphase (by simp [hcall])
    next hdeadline =>
      split at h
      next => cases h
      next =>
        cases h
        exact .awaits write call hphase hcall (Nat.lt_of_not_le hdeadline)
  · simp only [hcall, Option.map_some, Option.some.injEq] at h
    cases reply with
    | granted =>
      cases hold : site.hub.addon? write.addon.objectName with
      | none =>
        simp only [Write.finish, hold] at h
        cases h
        exact .vanishes write hphase (.inl ⟨hcall, hold⟩)
      | some old =>
        simp only [Write.finish, hold] at h
        cases h
        exact .commits write _ old hphase hcall hold
    | refused refusal =>
      simp only [Write.finish] at h
      rcases Write.verdict_cases (refusal.fault write.addon.key "") with ⟨key, hkey, hv⟩ | hv
      · rw [hv] at h
        cases h
        exact .vanishes write hphase (.inr ⟨refusal, key, hcall, hkey⟩)
      · rw [hv] at h
        cases h
        exact moves_of_failing (refusal.fault write.addon.key "") hphase (by simp [hcall])
    | crashed =>
      cases h
      exact .crashes write hphase hcall

theorem step_moves {f : Follower} {i : Nat} {site next : Site} {result : Follower ⊕ Ending}
    (h : f.step i false site = some (next, result)) : f.Moves i site next result := by
  cases hphase : f.phase with
  | listening => exact moves_of_listening hphase h
  | applying => exact moves_of_applying hphase h
  | writing write => exact moves_of_writing hphase h

end Follower

end AddonWatch

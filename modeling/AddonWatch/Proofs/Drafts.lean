import AddonWatch.Proofs.OneWatcher

namespace AddonWatch

theorem getElem?_set_body {bodies old : List Body} {i j : Nat} {f g : Follower}
    (h : bodies = old.set i (.guarded f)) (hg : bodies[j]? = some (.guarded g)) :
    j = i ∧ g = f ∨ old[j]? = some (.guarded g) := by
  rw [h, List.getElem?_set] at hg
  split at hg
  next hij =>
    split at hg
    · cases hg
      exact .inl ⟨hij.symm, rfl⟩
    · cases hg
  next => exact .inr hg

theorem getElem?_append_body {bodies old : List Body} {j : Nat} {f g : Follower}
    (h : bodies = old ++ [.guarded f]) (hg : bodies[j]? = some (.guarded g)) :
    old[j]? = some (.guarded g) ∨ j = old.length ∧ g = f := by
  rw [h, List.getElem?_append] at hg
  split at hg
  next => exact .inl hg
  next hge =>
    have hm := List.mem_of_getElem? hg
    have hlt := (List.getElem?_eq_some_iff.mp hg).1
    rw [List.length_singleton] at hlt
    exact .inr ⟨by omega, Body.guarded.inj (List.mem_singleton.mp hm)⟩

namespace Supervision

theorem LeadMoves.bodies {s next : Supervision} (h : s.LeadMoves next) :
    next.site.bodies = s.site.bodies := by
  obtain ⟨hub, trace, exits, he, -⟩ := h.shared
  rw [he]
  rfl

/-- What holds of every watcher that starts for a key that can be read back, and of every one that a
watcher goes on as, holds of all of them in every run. -/
theorem Reached.followers {w : Surroundings} {P : Follower → Prop}
    (hstart : ∀ policy (a : Assignment) feed, a.key.IsWellFormed → P (.start policy a feed))
    (hmove : ∀ f i site next f', P f → f.Moves i site next (.inl f') → P f') {s : Supervision}
    (h : s.Reached w) :
    ∀ (i : Nat) (f : Follower), s.site.bodies[i]? = some (.guarded f) → P f := by
  induction h using Reached.induct with
  | start s hf ha =>
    intro i f hb
    simp [Site.bodies, hf.children] at hb
  | child s site i child f hr hr' hc hrun hb hm ih =>
    intro j g hg
    rcases hm.bodies hc hb with he | ⟨after, f', hgo, he⟩
    · exact ih j g (he ▸ hg)
    · rcases getElem?_set_body he hg with ⟨rfl, rfl⟩ | hold
      · exact hmove f j s.site after g (ih j f (Site.getElem?_bodies.mpr ⟨child, hc, hb⟩)) hgo
      · exact ih j g hold
  | desk s site i desk desk' hr hr' hd hm ih =>
    intro j g hg
    rcases hm.bodies with he | ⟨text, key, attempt, rest, hphase, he⟩
    · exact ih j g (he ▸ hg)
    · rcases getElem?_append_body he hg with hold | ⟨-, rfl⟩
      · exact ih j g hold
      · obtain ⟨hk, -, -, ha⟩ := (hr.orderly.desks i desk hd).work text _ rest hphase
        exact hstart _ _ _ (ha ▸ hk)
  | lead s next hr hr' hm ih =>
    intro j g hg
    exact ih j g (hm.bodies ▸ hg)
  | hub s hub hr hr' ha ih => exact ih
  | time s moment hr hr' ht ih => exact ih
  | halt s hr hr' ih => exact ih

end Supervision

/-- A watcher marks no write, or commits the one that it waits for. -/
theorem Follower.Moves.quiet_or_commits {f : Follower} {i : Nat} {site next : Site}
    {result : Follower ⊕ Ending} (h : f.Moves i site next result) :
    next.writes = site.writes ∨ ∃ write text, f.phase = .writing write ∧
      result = .inl (f.appliedOne site) ∧ next = (write.commit (some i) site).log .debug text := by
  cases h with
  | skips _ _ _ _ _ hnext => rcases hnext with rfl | ⟨text, rfl⟩ <;> exact .inl rfl
  | commits write text old hphase => exact .inr ⟨write, text, hphase, rfl, rfl⟩
  | _ => exact .inl rfl

theorem Follower.Moves.writes {f : Follower} {i : Nat} {site next : Site}
    {result : Follower ⊕ Ending} (h : f.Moves i site next result) :
    next.writes = site.writes ∨ ∃ write, f.phase = .writing write ∧
      result = .inl (f.appliedOne site) ∧
      next.writes = (some i, write.addon, site.now) :: site.writes := by
  rcases h.quiet_or_commits with he | ⟨write, text, hphase, hresult, rfl⟩
  · exact .inl he
  · exact .inr ⟨write, hphase, hresult, rfl⟩

theorem Site.ChildMoves.writes {site next : Site} {i : Nat} {child : Child} {f : Follower}
    (h : site.ChildMoves i child f next) :
    next.writes = site.writes ∨ ∃ write, f.phase = .writing write ∧
      site.isCancelled child = false ∧
      next.writes = (some i, write.addon, site.now) :: site.writes := by
  cases h with
  | stops => exact .inl rfl
  | goesOn after f' hn hm =>
    rcases hm.writes with he | ⟨write, hphase, -, he⟩
    · exact .inl he
    · exact .inr ⟨write, hphase, hn, he⟩
  | ends after ending trace hn hm hw =>
    rcases hm.writes with he | ⟨write, -, hresult, -⟩
    · exact .inl (hw.trans he)
    · cases hresult

theorem Addon.reference_withObserved (addon : Addon) (observed : Generation) :
    (addon.withObserved observed).reference =
      addon.reference.map ({ · with observed := observed }) := by
  unfold withObserved reference
  cases addon.status <;> rfl

/-- What a watcher is about to write is the addon as it was stored once, under the name of its key
and with a reference to its target, but for the generation observed. -/
def Follower.Drafted (f : Follower) : Prop :=
  ∀ write, f.phase = .writing write → ∃ (old : Addon) (reference : Reference),
    write.addon = old.withObserved write.observed ∧
      old.objectName = f.assignment.key.objectName ∧ old.reference = some reference ∧
      reference.fingerprint = f.assignment.fingerprint

/-- A draft goes under the name of its key. -/
theorem Follower.Drafted.objectName {f : Follower} {write : Write} (h : f.Drafted)
    (hphase : f.phase = .writing write) :
    write.addon.objectName = f.assignment.key.objectName := by
  obtain ⟨old, reference, hwith, hname, -⟩ := h write hphase
  rw [hwith]
  exact hname

/-- A draft points at the target, with the generation in it that is to be recorded. -/
theorem Follower.Drafted.reference {f : Follower} {write : Write} (h : f.Drafted)
    (hphase : f.phase = .writing write) : ∃ reference, write.addon.reference = some reference ∧
      reference.fingerprint = f.assignment.fingerprint ∧ reference.observed = write.observed := by
  obtain ⟨old, reference, hwith, -, href, hfp⟩ := h write hphase
  refine ⟨{ reference with observed := write.observed }, ?_, hfp, rfl⟩
  rw [hwith, Addon.reference_withObserved, href]
  rfl

theorem Assignment.plan_write {a : Assignment} {name : String} {config? : Option ConfigObject}
    {addon? : Option Addon} {addon : Addon} {observed : Generation}
    (h : a.plan name config? addon? = .write addon observed) :
    ∃ (config : ConfigObject) (old : Addon) (reference : Reference),
      config? = some config ∧ addon? = some old ∧ addon = old.withObserved observed ∧
      old.reference = some reference ∧ reference.fingerprint = a.fingerprint ∧
      observed = reference.observed.observe (config.generation.getD .zero) ∧
      observed ≠ reference.observed := by
  unfold plan at h
  split at h
  · cases h
  · cases h
  next config old =>
    split at h
    · cases h
    next reference hr =>
      split at h
      · cases h
      next hf =>
        dsimp only at h
        split at h
        · cases h
        next hne =>
          cases h
          exact ⟨config, old, reference, rfl, rfl, rfl, hr, not_not.mp hf, rfl, hne⟩

/-- The draft behind a step was there before, whatever its call has come to since, or the sighting
that has been looked at asks for it. -/
theorem Follower.Moves.writing {f f' : Follower} {i : Nat} {site next : Site} {write : Write}
    (h : f.Moves i site next (.inl f')) (hw : f'.phase = .writing write) :
    (∃ old call, f.phase = .writing old ∧ old.call.advance site.now = .inl call ∧
      write = { old with call := call }) ∨
    (0 < f.unapplied ∧ write.call.act = site.hub.writes.take.1 ∧
      f.assignment.plan f.name
        (site.hub.config? f.assignment.target (f.assignment.configName f.name))
        (site.hub.addon? f.assignment.key.objectName) = .write write.addon write.observed) := by
  cases h with
  | sights sighting =>
    unfold sighted at hw
    dsimp only at hw
    split at hw <;> cases hw
  | misses fault hub text hphase =>
    rw [hphase] at hw
    cases hw
  | begins addon observed hphase hpos hplan =>
    cases hw
    exact .inr ⟨hpos, rfl, hplan⟩
  | awaits old call hphase hcall =>
    cases hw
    exact .inl ⟨old, call, hphase, hcall, rfl⟩
  | _ => cases hw

theorem Follower.Moves.drafted {f f' : Follower} {i : Nat} {site next : Site}
    (h : f.Moves i site next (.inl f')) (hf : f.Drafted) : f'.Drafted := by
  intro write hw
  rw [h.assignment.1]
  rcases h.writing hw with ⟨old, call, hphase, -, rfl⟩ | ⟨-, -, hplan⟩
  · exact hf old hphase
  · obtain ⟨config, old, reference, -, ha, hwith, hr, hfp, -⟩ := Assignment.plan_write hplan
    exact ⟨old, reference, hwith, Hub.objectName_of_addon? ha, hr, hfp⟩

theorem Supervision.Reached.drafted {w : Surroundings} {s : Supervision} (h : s.Reached w)
    {i : Nat} {f : Follower} (hf : s.site.bodies[i]? = some (.guarded f)) : f.Drafted :=
  h.followers (fun _ _ _ _ _ hw => by cases hw) (fun _ _ _ _ _ hd hm => hm.drafted hd) i f hf

/-- The key that a watcher was started for can be read back from its text. -/
theorem Supervision.Reached.wellFormed {w : Surroundings} {s : Supervision} (h : s.Reached w)
    {i : Nat} {a : Assignment} (ha : s.site.assignment? i = some a) : a.key.IsWellFormed := by
  obtain ⟨child, hc, hassigned⟩ := Option.bind_eq_some_iff.mp ha
  obtain ⟨f, hb, rfl⟩ := Child.guarded_of_assignment? hassigned
  exact h.followers (P := fun f => f.assignment.key.IsWellFormed) (fun _ _ _ hk => hk)
    (fun _ _ _ _ _ hk hm => hm.assignment.1 ▸ hk) i f (Site.getElem?_bodies.mpr ⟨child, hc, hb⟩)

end AddonWatch

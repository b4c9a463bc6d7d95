import AddonWatch.Proofs.Heeding
import AddonWatch.Proofs.Silence

namespace AddonWatch

namespace Site

/-- What a status write has recorded, if its author watched for that key with that fingerprint. -/
def recorded? (site : Site) (key : AddonKey) (fingerprint : Fingerprint)
    (write : Option Nat × Addon × Nat) : Option Generation :=
  if (write.1.bind site.assignment?).any fun a => a.key = key ∧ a.fingerprint = fingerprint then
    write.2.1.reference.map Reference.observed
  else none

/-- The generations that watchers of the key with that fingerprint have written into its addon, the
latest first. -/
def commits (site : Site) (key : AddonKey) (fingerprint : Fingerprint) : List Generation :=
  site.writes.filterMap (site.recorded? key fingerprint)

end Site

namespace Supervision

variable {w : Surroundings} {s next : Supervision} {i j : Nat} {a b : Assignment}
  {observed : Generation}

/-- The child lives for that assignment and waits for its write of that generation. -/
def Drafts (s : Supervision) (i : Nat) (a : Assignment) (observed : Generation) : Prop :=
  s.site.Live i a ∧ ∃ (f : Follower) (write : Write), s.site.bodies[i]? = some (.guarded f) ∧
    f.assignment = a ∧ f.phase = .writing write ∧ write.observed = observed

/-- The child lives for that assignment, and a sighting tells it to write that generation. -/
def Resolves (s : Supervision) (i : Nat) (a : Assignment) (observed : Generation) : Prop :=
  s.site.Live i a ∧ ∃ (f : Follower) (addon : Addon), s.site.bodies[i]? = some (.guarded f) ∧
    f.assignment = a ∧ 0 < f.unapplied ∧ f.assignment.plan f.name
      (s.site.hub.config? a.target (a.configName f.name)) (s.site.hub.addon? a.key.objectName) =
        .write addon observed

theorem Drafts.live (h : s.Drafts i a observed) : s.site.Live i a :=
  h.1

theorem Resolves.live (h : s.Resolves i a observed) : s.site.Live i a :=
  h.1

/-- In that step the child has written the generation into its addon. -/
structure Commits (s next : Supervision) (i : Nat) (a : Assignment) (observed : Generation) :
    Prop where
  drafts : s.Drafts i a observed
  records : next.site.hub.Records a observed
  others : ∀ object, object ≠ a.key.objectName →
    next.site.hub.addon? object = s.site.hub.addon? object
  free : ∀ b g, ¬next.Drafts i b g
  mine : next.site.commits a.key a.fingerprint = observed :: s.site.commits a.key a.fingerprint
  apart : ∀ key fingerprint, ¬(a.key = key ∧ a.fingerprint = fingerprint) →
    next.site.commits key fingerprint = s.site.commits key fingerprint

/-- Where a watcher that lives comes from: it was there before, or it has just been started, or its
own step has led to it. -/
theorem Reached.origin (h : s.Reached w) (hm : s.Moves w next) {g : Follower}
    (hb : next.site.bodies[i]? = some (.guarded g)) (hl : next.site.Live i g.assignment) :
    (s.site.bodies[i]? = some (.guarded g) ∧ s.site.Live i g.assignment) ∨
      (∃ policy a feed, g = .start policy a feed) ∨
      ∃ f after, s.site.bodies[i]? = some (.guarded f) ∧ s.site.Live i f.assignment ∧
        f.Moves i s.site after (.inl g) := by
  have hgrows := h.orderly.grows hm
  have hkeep : s.site.bodies[i]? = some (.guarded g) →
      s.site.bodies[i]? = some (.guarded g) ∧ s.site.Live i g.assignment := by
    intro hold
    obtain ⟨child, hc, -⟩ := Site.getElem?_bodies.mp hold
    exact ⟨hold, hgrows.live i _ (List.getElem?_eq_some_iff.mp hc).1 hl⟩
  cases hm with
  | task t _ hstep =>
    cases t with
    | child j =>
      obtain ⟨site, child, f, rfl, hc, hf, hrun, hmoves⟩ :=
        stepChild_moves hstep h.orderly.staffed
      rcases hmoves.bodies hc hf with he | ⟨after, f', hgo, he⟩
      · exact .inl (hkeep (he ▸ hb))
      · rcases getElem?_set_body he hb with ⟨rfl, rfl⟩ | hold
        · have hbody := Site.getElem?_bodies.mpr ⟨child, hc, hf⟩
          have hlive := hgrows.live i _ (List.getElem?_eq_some_iff.mp hc).1 hl
          exact .inr (.inr ⟨f, after, hbody, hgo.assignment.1 ▸ hlive, hgo⟩)
        · exact .inl (hkeep hold)
    | desk j =>
      obtain ⟨desk, desk', site, hd, hmoves, rfl⟩ := stepDesk_cases hstep
      rcases hmoves.bodies with he | ⟨text, key, attempt, rest, -, he⟩
      · exact .inl (hkeep (he ▸ hb))
      · rcases getElem?_append_body he hb with hold | ⟨-, rfl⟩
        · exact .inl (hkeep hold)
        · exact .inr (.inl ⟨_, _, _, rfl⟩)
    | lead => exact .inl (hkeep ((stepLead_moves hstep).bodies ▸ hb))
  | _ => exact .inl (hkeep hb)

/-- A write that waits has waited before, or has just been begun. -/
theorem Reached.drafts_origin (h : s.Reached w) (hm : s.Moves w next)
    (hd : next.Drafts i a observed) : s.Drafts i a observed ∨ s.Resolves i a observed := by
  obtain ⟨hl, g, write, hb, rfl, hphase, rfl⟩ := hd
  rcases h.origin hm hb hl with ⟨hold, hlive⟩ | ⟨policy, a, feed, rfl⟩ | ⟨f, after, hf, hlive, hgo⟩
  · exact .inl ⟨hlive, g, write, hold, rfl, hphase, rfl⟩
  · cases hphase
  · rw [hgo.assignment.1]
    rcases hgo.writing hphase with ⟨old, call, hwaits, -, rfl⟩ | ⟨hpos, -, hplan⟩
    · exact .inl ⟨hlive, f, old, hf, rfl, hwaits, rfl⟩
    · exact .inr ⟨hlive, f, write.addon, hf, rfl, hpos, hplan⟩

/-- Writes are made by children that there are. -/
theorem Reached.authors (h : s.Reached w) :
    ∀ e ∈ s.site.writes, ∀ i, e.1 = some i → i < s.site.children.length := by
  induction h with
  | start s hf => simp [Site.writes, hf.trace]
  | next s s' hr hm ih =>
    have hlen := (hr.orderly.grows hm).length
    have hkeep : s'.site.writes = s.site.writes →
        ∀ e ∈ s'.site.writes, ∀ i, e.1 = some i → i < s'.site.children.length := by
      intro he e hmem i hi
      exact Nat.lt_of_lt_of_le (ih e (he ▸ hmem) i hi) hlen
    cases hm with
    | task t _ hstep =>
      rcases hr.writes_step hstep with he | ⟨j, a, addon, -, he, -, hlive⟩
      · exact hkeep he
      · intro e hmem i hi
        rw [he] at hmem
        rcases List.mem_cons.mp hmem with rfl | hold
        · cases hi
          exact Nat.lt_of_lt_of_le hlive.lt_length hlen
        · exact Nat.lt_of_lt_of_le (ih e hold i hi) hlen
    | _ => exact hkeep rfl

/-- Who has written what does not change with the children that are new. -/
theorem Reached.recorded_past (h : s.Reached w) (hm : s.Moves w next) (key : AddonKey)
    (fingerprint : Fingerprint) :
    s.site.writes.filterMap (next.site.recorded? key fingerprint) =
      s.site.commits key fingerprint := by
  refine List.filterMap_congr fun e he => ?_
  obtain ⟨author, addon, time⟩ := e
  cases author with
  | none => rfl
  | some i =>
    have hsame := (h.orderly.grows hm).assignment i (h.authors _ he i rfl)
    simp only [Site.recorded?, Option.bind_some, hsame]

theorem commits_of_writes (h : s.Reached w) (hm : s.Moves w next)
    (hw : next.site.writes = s.site.writes) (key : AddonKey) (fingerprint : Fingerprint) :
    next.site.commits key fingerprint = s.site.commits key fingerprint := by
  unfold Site.commits
  rw [hw]
  exact h.recorded_past hm key fingerprint

/-- What the write of a watcher comes to. -/
theorem commits_of_write {site : Site} {child : Child} {f : Follower} {write : Write}
    {text : String} (h : s.Reached w) (hc : s.site.children[i]? = some child)
    (hb : child.body = .guarded f) (hrun : child.condition = .running)
    (hn : s.site.isCancelled child = false) (hphase : f.phase = .writing write)
    (hsite : site = ((write.commit (some i) s.site).log .debug text).setChild i
      (·.withFollower (f.appliedOne s.site)))
    (hm : s.Moves w { s with site := site }) :
    s.Commits { s with site := site } i f.assignment write.observed := by
  have hbody := Site.getElem?_bodies.mpr ⟨child, hc, hb⟩
  have hlive := Site.Live.of_guarded hc hb hrun hn
  have hd := h.drafted hbody
  obtain ⟨reference, href, -, hobserved⟩ := hd.reference hphase
  have hhub : site.hub =
      (s.site.hub.storeAddon write.addon).announceAddon write.addon.objectName true := by
    rw [hsite]
    rfl
  have hbodies : site.bodies = s.site.bodies.set i (.guarded (f.appliedOne s.site)) := by
    rw [hsite]
    exact Site.bodies_withFollower _ hc hb
  have hwrites : site.writes = (some i, write.addon, s.site.now) :: s.site.writes := by
    rw [hsite]
    rfl
  have hassigned : site.assignment? i = some f.assignment :=
    ((h.orderly.grows hm).assignment i hlive.lt_length).trans hlive.assignment?
  have hpast : ∀ key fingerprint, s.site.writes.filterMap (site.recorded? key fingerprint) =
      s.site.commits key fingerprint := h.recorded_past hm
  refine ⟨⟨hlive, f, write, hbody, rfl, hphase, rfl⟩, hhub ▸ hd.records hphase s.site.hub,
    fun object hne => ?_, ?_, ?_, ?_⟩
  · dsimp only
    rw [hhub]
    exact Hub.addon?_stores_of_ne s.site.hub (by rw [hd.objectName hphase]; exact Ne.symm hne)
  · rintro b g ⟨-, f', write', hb', -, hphase', -⟩
    dsimp only at hb'
    rw [hbodies, List.getElem?_set_self (List.getElem?_eq_some_iff.mp hbody).1] at hb'
    cases hb'
    cases hphase'
  · dsimp only
    rw [Site.commits, hwrites]
    simp [Site.recorded?, hassigned, href, hobserved, hpast]
  · intro key fingerprint hne
    dsimp only
    rw [Site.commits, hwrites]
    simp [Site.recorded?, hassigned, hne, hpast]

/-- A move changes nothing in what watchers have written, or it is the write of one. -/
theorem Reached.quiet_or_commits (h : s.Reached w) (hm : s.Moves w next) :
    (next.site.writes = s.site.writes ∧ ∀ key fingerprint,
      next.site.commits key fingerprint = s.site.commits key fingerprint) ∨
      ∃ i a observed, s.Commits next i a observed := by
  have hquiet : next.site.writes = s.site.writes → next.site.writes = s.site.writes ∧
      ∀ key fingerprint, next.site.commits key fingerprint = s.site.commits key fingerprint :=
    fun hw => ⟨hw, commits_of_writes h hm hw⟩
  have hm' := hm
  cases hm' with
  | task t _ hstep =>
    cases t with
    | child i =>
      obtain ⟨site, child, f, rfl, hc, hb, hrun, hmoves⟩ :=
        stepChild_moves hstep h.orderly.staffed
      cases hmoves with
      | stops => exact .inl (hquiet rfl)
      | goesOn after f' hn hgo =>
        rcases hgo.quiet_or_commits with he | ⟨write, text, hphase, hresult, rfl⟩
        · exact .inl (hquiet he)
        · cases hresult
          exact .inr ⟨i, _, _, commits_of_write h hc hb hrun hn hphase rfl hm⟩
      | ends after ending trace hn hgo hw =>
        rcases hgo.quiet_or_commits with he | ⟨write, text, -, hresult, -⟩
        · exact .inl (hquiet (hw.trans he))
        · cases hresult
    | desk i =>
      obtain ⟨desk, desk', site, -, hmoves, rfl⟩ := stepDesk_cases hstep
      exact .inl (hquiet hmoves.writes)
    | lead =>
      obtain ⟨-, -, -, -, hw⟩ := (stepLead_moves hstep).shared
      exact .inl (hquiet hw)
  | _ => exact .inl (hquiet rfl)

end Supervision

end AddonWatch

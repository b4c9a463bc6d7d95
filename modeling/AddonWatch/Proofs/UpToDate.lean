import AddonWatch.Proofs.Convergence
import AddonWatch.Proofs.Heeding

namespace AddonWatch

/-- A watcher that cannot go on, and waits neither for a write nor to try one again, waits for its
stream. -/
theorem Follower.quiet_of_step {f : Follower} {i : Nat} {site : Site}
    (h : f.step i false site = none) (hretry : f.retryAt = none)
    (hw : ∀ write, f.phase ≠ .writing write) :
    f.phase = .listening ∧ ∃ hub, site.hub.receive f.feed = (.quiet, hub) := by
  cases hphase : f.phase with
  | listening =>
    refine ⟨rfl, ?_⟩
    simp only [step, hphase, hretry, Bool.false_eq_true, if_false, Option.any_none] at h
    unfold received at h
    split at h
    next => cases h
    next => cases h
    next => cases h
    next hub hr => exact ⟨hub, hr⟩
  | applying =>
    simp only [step, hphase, Bool.false_eq_true, if_false] at h
    split at h <;> cases h
  | writing write => exact absurd hphase (hw write)

/-- What a watcher that keeps up has come to when nothing is left for it: the stored addon has in it
the generation of the object. -/
theorem Follower.KeepsUp.recorded {f : Follower} {hub next : Hub} (h : f.KeepsUp hub)
    (hphase : f.phase = .listening) (hretry : f.retryAt = none)
    (hr : hub.receive f.feed = (.quiet, next)) {observed generation : Generation}
    (hrec : hub.Records f.assignment observed)
    (hg : hub.Counts f.assignment.target generation) : observed = generation := by
  obtain ⟨feed, hf, hq, hc⟩ := Hub.receive_quiet hr
  rcases h.records observed generation hrec hg with he | hpos | ⟨other, ho, hclosed | ⟨_, hs⟩⟩
  · exact he
  · have hzero := h.rests hphase hretry
    omega
  · obtain rfl : feed = other := Option.some.inj (hf.symm.trans ho)
    simp [hc] at hclosed
  · obtain rfl : feed = other := Option.some.inj (hf.symm.trans ho)
    simp [hq] at hs

theorem Hub.records_of_wanted {hub : Hub} {key : AddonKey} {reference : Reference}
    (h : hub.wanted key = some reference) :
    hub.Records ⟨key, reference.fingerprint, reference.target⟩ reference.observed := by
  obtain ⟨addon, ha, hd⟩ := Option.bind_eq_some_iff.mp h
  exact ⟨addon, reference, ha, Addon.reference_of_desired hd, rfl, rfl⟩

/-- Every change is told, no reference holds a slash in a coordinate, no stored addon is said to be
missing, and whoever changes an addon carries over the generation observed in it. -/
def Surroundings.carrying : Surroundings where
  admits hub := hub.IsSlashFree ∧ hub.writes.Gives Reply.IsHonest
  allows site hub := site.hub.Shows hub ∧ hub.IsSlashFree ∧ hub.writes.Gives Reply.IsHonest ∧
    site.hub.CarriesOver hub

namespace Supervision

variable {s : Supervision} {key : AddonKey}

/-- No watcher of the key waits for a write, or to try one again. -/
def IsSettled (s : Supervision) (key : AddonKey) : Prop :=
  ∀ (i : Nat) (f : Follower), s.site.bodies[i]? = some (.guarded f) →
    s.site.Live i f.assignment → f.assignment.key = key →
      f.retryAt = none ∧ ∀ write, f.phase ≠ .writing write

theorem IsAtRest.step_eq_none (h : s.IsAtRest) {i : Nat} {child : Child} {f : Follower}
    (hc : s.site.children[i]? = some child) (hb : child.body = .guarded f)
    (hl : s.site.Live i f.assignment) : f.step i false s.site = none := by
  obtain ⟨-, hn, hrun⟩ := hl.running hc
  have hnone := h (.child i)
  simpa [step, stepChild, Site.stepChild, hc, hrun, hb, hn] using hnone

/-- With no task able to go on and nothing pending for an addon that is recognised, neither with the
supervision nor with its watcher, the generation observed in the addon is that of the object that it
wants to follow, unless the desk of its key is down. -/
theorem observed_at_rest {w : Surroundings} (h : s.Reached (.both .heeding w))
    (hh : s.site.halted = false) (hlead : s.isSealed = false) (hrest : s.IsAtRest)
    (hk : key.IsWellFormed) (hname : s.names.contains key.name = true) (hp : ¬s.Pends key)
    (hs : s.IsSettled key) {reference : Reference} {generation : Generation}
    (hw : s.site.hub.wanted key = some reference)
    (hg : s.site.hub.Counts reference.target generation) :
    s.IsDown (.both .heeding w) (s.partition key.text) ∨ reference.observed = generation := by
  obtain ⟨feed, streaming, tick, hl⟩ := leading_of_isSealed hlead
  obtain ⟨desk, hd⟩ := h.left.isManned.desk hlead key.text
  cases hup : desk.isDown with
  | true => exact .inl (h.isDown hd hup)
  | false =>
    right
    have hagree := (h.left.telling.minds hk hname).agrees hl hh hrest hp hd hup
    unfold Site.Agrees at hagree
    rw [hw] at hagree
    obtain ⟨i, -, hlive⟩ := hagree
    obtain ⟨-, child, hc, ha, -⟩ := id hlive
    obtain ⟨f, hb, ha⟩ := Child.guarded_of_assignment? ha
    have hbody := Site.getElem?_bodies.mpr ⟨child, hc, hb⟩
    have hlive : s.site.Live i f.assignment := ha ▸ hlive
    obtain ⟨hretry, hwriting⟩ := hs i f hbody hlive (by rw [ha])
    obtain ⟨hphase, hub, hr⟩ :=
      Follower.quiet_of_step (hrest.step_eq_none hc hb hlive) hretry hwriting
    refine (h.left.keepsUp i f hbody hlive).recorded hphase hretry hr ?_ ?_
    · rw [ha]
      exact Hub.records_of_wanted hw
    · rw [ha]
      exact hg

/-- Whether the generation observed in the addon and that of the object that it wants to follow
stand in that relation. -/
def compares (s : Supervision) (key : AddonKey) (test : Generation → Generation → Bool) : Bool :=
  (s.site.hub.wanted key).any fun reference =>
    (s.site.hub.config? reference.target reference.target.objectName).any fun config =>
      config.generation.any fun generation =>
        0 < generation.val && test reference.observed generation

theorem of_compares {test : Generation → Generation → Bool} (h : s.compares key test = true) :
    ∃ reference generation, s.site.hub.wanted key = some reference ∧
      s.site.hub.Counts reference.target generation ∧
      test reference.observed generation = true := by
  obtain ⟨reference, hw, h⟩ := (Option.any_eq_true ..).mp h
  obtain ⟨config, hc, h⟩ := (Option.any_eq_true ..).mp h
  obtain ⟨generation, hg, h⟩ := (Option.any_eq_true ..).mp h
  obtain ⟨hpos, htest⟩ := (Bool.and_eq_true ..).mp h
  exact ⟨reference, generation, hw, ⟨of_decide_eq_true hpos, config, hc, hg⟩, htest⟩

/-- All watchers listen, with nothing to try again. -/
def isListening (s : Supervision) : Bool :=
  s.site.children.all fun child => child.follower?.all fun f => f.retryAt.isNone &&
    match f.phase with
    | .listening => true
    | _ => false

theorem isSettled_of_isListening (h : s.isListening = true) (key : AddonKey) :
    s.IsSettled key := by
  intro i f hb _ _
  obtain ⟨child, hc, hbody⟩ := Site.getElem?_bodies.mp hb
  have hchild := List.all_eq_true.mp h child (List.mem_of_getElem? hc)
  simp only [Child.follower?, hbody, Option.all_some, Bool.and_eq_true, Option.isNone_iff_eq_none]
    at hchild
  refine ⟨hchild.1, fun write hw => ?_⟩
  have := hchild.2
  rw [hw] at this
  cases this

theorem honest_sparing : sparing.site.hub.writes.Gives Reply.IsHonest := by
  simp [sparing, overreaching, Script.Gives, Act.Gives, Reply.IsHonest]

/-- With only the first addon recognised the generation of its object is observed in it at rest. -/
theorem observed_at_rest_first : ∃ (s : Supervision) (reference : Reference)
    (generation : Generation), s.Reached (.both .heeding .calm) ∧ s.IsAtRest ∧
    s.site.hub.wanted ⟨"ns", "a"⟩ = some reference ∧
    s.site.hub.Counts reference.target generation ∧ reference.observed = generation := by
  have hstart : sparing.Reached (.both .heeding .calm) :=
    .start _ ⟨rfl, rfl, rfl, rfl, rfl, rfl⟩
      ⟨⟨slashFree_overreaching, honest_sparing⟩, overreaching_calm⟩
  obtain ⟨s, hs, hp⟩ := exists_of_play settling hstart
    (p := fun s => s.isIdle "a" && s.isListening &&
      s.compares ⟨"ns", "a"⟩ (fun _ _ => true) && s.desks.all fun desk => !desk.isOver)
    (by decide +kernel)
  simp only [Bool.and_eq_true] at hp
  obtain ⟨⟨⟨hidle, hlisten⟩, hcompares⟩, hup⟩ := hp
  obtain ⟨hh, hlead, hrest, hname, hquiet⟩ := of_isIdle hidle
  obtain ⟨reference, generation, hw, hg, -⟩ := of_compares hcompares
  have ho := (observed_at_rest hs hh hlead hrest
    (show AddonKey.IsWellFormed ⟨"ns", "a"⟩ by decide) hname (hquiet _)
    (isSettled_of_isListening hlisten _) hw hg).resolve_left (not_isDown hup _)
  exact ⟨s, reference, generation, hs, hrest, hw, hg, ho⟩

/-- The first addon is deleted and created anew, with no generation observed in it. -/
def recreated (s : Supervision) : Supervision :=
  { s with site := { s.site with
    hub := (s.site.hub.without ⟨some "ns", "a"⟩).withAddon (specimen "a" "x") } }

theorem Reached.recreated (h : s.Reached (.both .carrying .calm)) (ho : s.isOpen = true) :
    s.recreated.Reached (.both .carrying .calm) := by
  have hcalm := calm_of_isOpen ho
  simp only [isOpen, Bool.and_eq_true, List.all_eq_true, decide_eq_true_eq] at ho
  obtain ⟨⟨⟨⟨hfeeds, -⟩, -⟩, hwrites⟩, -⟩ := ho
  have hopen : ∀ f ∈ s.site.hub.feeds, f.topic = none → f.closed = false := fun f hf ht => by
    simpa [ht] using hfeeds f hf
  have hhonest : s.site.hub.writes.Gives Reply.IsHonest := by
    simp [hwrites, Script.Gives, Act.Gives, Reply.IsHonest]
  have hfree : s.site.hub.IsSlashFree := (Reached.mono (v := .carrying) (w := .telling)
    (fun _ ha => ha.1) (fun _ _ ha => ⟨ha.1.tells, ha.2.1⟩) h.left).faithful.hub
  have hgone := h.next _ _ (.hub (s.site.hub.without ⟨some "ns", "a"⟩)
    ⟨⟨Hub.shows_without hopen, hfree.without _, hhonest, Hub.carriesOver_without _ _⟩, hcalm⟩)
  refine .next _ _ hgone (.hub _ ⟨⟨Hub.shows_withAddon (Hub.open_without hopen),
    (hfree.without _).withAddon ?_, hhonest, Hub.carriesOver_withAddon ?_⟩, hcalm⟩)
  · intro reference hr
    cases hr
    decide
  · exact Hub.addon?_without_self _ _

/-- Although everything is told and nobody that is called has broken down, at rest the generation of
the object is not observed in the first addon, which was created anew under a watcher that had
written that generation before. -/
theorem outdated_at_rest : ∃ (s : Supervision) (reference : Reference) (generation : Generation),
    s.Reached (.both .carrying .calm) ∧ s.site.halted = false ∧ s.isSealed = false ∧ s.IsAtRest ∧
    s.names.contains "a" = true ∧ ¬s.Pends ⟨"ns", "a"⟩ ∧ s.IsSettled ⟨"ns", "a"⟩ ∧
    s.site.hub.wanted ⟨"ns", "a"⟩ = some reference ∧
    s.site.hub.Counts reference.target generation ∧ reference.observed ≠ generation ∧
    ∀ desk ∈ s.desks, desk.isDown = false := by
  have hstart : sparing.Reached (.both .carrying .calm) :=
    .start _ ⟨rfl, rfl, rfl, rfl, rfl, rfl⟩
      ⟨⟨slashFree_overreaching, honest_sparing⟩, overreaching_calm⟩
  obtain ⟨s, hs, hp⟩ := exists_of_play settling hstart
    (p := fun s => s.isOpen && (s.recreated.play
      (.lead :: List.replicate 4 (.desk 0) ++ .lead :: List.replicate 4 (.desk 0))).any fun s =>
        s.isIdle "a" && s.isListening &&
        s.compares ⟨"ns", "a"⟩ (fun observed generation => observed ≠ generation) &&
        s.desks.all fun desk => !desk.isOver)
    (by decide +kernel)
  obtain ⟨hopen, hp⟩ := (Bool.and_eq_true ..).mp hp
  obtain ⟨s', hs', hp⟩ := exists_of_play _ (hs.recreated hopen) hp
  simp only [Bool.and_eq_true] at hp
  obtain ⟨⟨⟨hidle, hlisten⟩, hcompares⟩, hup⟩ := hp
  obtain ⟨hh, hlead, hrest, hname, hquiet⟩ := of_isIdle hidle
  obtain ⟨reference, generation, hw, hg, hne⟩ := of_compares hcompares
  exact ⟨s', reference, generation, hs', hh, hlead, hrest, hname, hquiet _,
    isSettled_of_isListening hlisten _, hw, hg, by simpa using hne,
    fun desk hd => Bool.eq_false_iff.mpr (not_down_of_up hup desk hd)⟩

end Supervision

end AddonWatch

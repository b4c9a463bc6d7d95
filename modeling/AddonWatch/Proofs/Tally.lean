import AddonWatch.Proofs.Accounting
import AddonWatch.Proofs.Heeding
import AddonWatch.Proofs.Naming

namespace AddonWatch

theorem Generation.val_bump {g : Generation} (h : g.val < 9223372036854775807) :
    g.bump.val = g.val + 1 := by
  simp [bump, h]

namespace Site

/-- The generations that the child has written, the latest first. -/
def written (site : Site) (i : Nat) : List Generation :=
  site.writes.filterMap fun (author, addon, _) =>
    if author = some i then addon.reference.map Reference.observed else none

/-- The stream of the watcher tells of its object alone, which is there without a positive
generation, and the stored addon is never said to be missing. -/
structure Suits (site : Site) (policy : RetryPolicy) (a : Assignment) (feed : Nat) : Prop where
  policy : site.settings.retry = policy
  serves : site.hub.Serves feed a.target
  uncounted : ∃ config, site.hub.config? a.target a.target.objectName = some config ∧
    (config.generation.getD .zero).val ≤ 0
  honest : site.hub.writes.Gives Reply.IsHonest

/-- Nobody but the child has written the addon. -/
structure LeavesTo (old : Site) (a : Assignment) (i : Nat) (new : Site) : Prop where
  addon : new.hub.addon? a.key.objectName = old.hub.addon? a.key.objectName
  written : new.written i = old.written i

end Site

namespace Follower

variable {policy : RetryPolicy} {a : Assignment} {i feed : Nat} {first site next : Site}
  {log : List Incident} {f f' : Follower} {result : Follower ⊕ Ending}

/-- A watcher that runs uncancelled on an open stream, its account, the latest incident first, and
the site that it works on. Between two steps anything may happen to the site that suits the watcher
and leaves the addon to it. -/
inductive RanOn (policy : RetryPolicy) (a : Assignment) (i feed : Nat) (first : Site) :
    List Incident → Follower → Site → Prop
  | start (hs : first.Suits policy a feed) :
      RanOn policy a i feed first [] (.start policy a feed) first
  | step (site next : Site) (log : List Incident) (f f' : Follower)
      (h : RanOn policy a i feed first log f site)
      (hstep : f.step i false site = some (next, .inl f')) :
      RanOn policy a i feed first ((f.incident? i site).toList ++ log) f' next
  | meanwhile (site other : Site) (log : List Incident) (f : Follower)
      (h : RanOn policy a i feed first log f site) (hs : other.Suits policy a feed)
      (hl : site.LeavesTo a i other) : RanOn policy a i feed first log f other

theorem Moves.configs (h : f.Moves i site next result) :
    next.hub.configs = site.hub.configs := by
  rcases h.takes_or_passes with hp | ⟨signal, hr⟩
  · exact (hp 0).configs
  · obtain ⟨_, _, -, -, he⟩ := Hub.receive_signal hr
    rw [he]

theorem Moves.suits (h : f.Moves i site next result) (hs : site.Suits policy a feed)
    (he : f.Expects Reply.IsHonest) : next.Suits policy a feed := by
  refine ⟨?_, h.serves hs.serves, ?_, (h.expects hs.honest he).1⟩
  · obtain ⟨hub, trace, rfl⟩ := h.site_eq
    exact hs.policy
  · have := hs.uncounted
    unfold Hub.config? at this ⊢
    rw [h.configs]
    exact this

/-- What holds of a watcher and its site however it goes on. -/
structure Attends (policy : RetryPolicy) (a : Assignment) (feed : Nat) (f : Follower)
    (site : Site) : Prop where
  suits : site.Suits policy a feed
  assignment : f.assignment = a
  feed : f.feed = feed
  named : 0 < f.unapplied → f.name = a.target.name
  expects : f.Expects Reply.IsHonest
  drafted : f.Drafted

theorem RanOn.attends (h : RanOn policy a i feed first log f site) :
    f.Attends policy a feed site := by
  induction h with
  | start hs =>
    refine ⟨hs, rfl, rfl, fun hpos => ?_, fun write hw => ?_, fun write hw => ?_⟩
    · simp [Follower.start] at hpos
    · cases hw
    · cases hw
  | step site next log f f' h hstep ih =>
    obtain ⟨hs, rfl, rfl, hnamed, he, hd⟩ := ih
    have hm := step_moves hstep
    obtain ⟨ha, hfeed⟩ := hm.assignment
    exact ⟨hm.suits hs he, ha, hfeed, hm.named ⟨hs.serves, hnamed⟩,
      (hm.expects hs.honest he).2 f' rfl, hm.drafted hd⟩
  | meanwhile site other log f h hs hl ih =>
    exact ⟨hs, ih.assignment, ih.feed, ih.named, ih.expects, ih.drafted⟩

theorem RanOn.ran (h : RanOn policy a i feed first log f site) : Ran policy a feed log f := by
  induction h with
  | start => exact .start
  | step site next log f f' h hstep ih =>
    exact .step i site next log f f' ih h.attends.suits.policy hstep
  | meanwhile site other log f h hs hl ih => exact ih

/-- An application has ended well only if none is put off. -/
theorem verdict?_of_applied (h : f.incident? i site = some .applied) :
    f.phase ≠ .listening ∧ f.verdict? i site = some .done := by
  cases hphase : f.phase with
  | listening =>
    simp only [incident?, hphase] at h
    split at h
    · cases h
    · split at h <;> cases h
  | _ =>
    simp only [incident?, hphase] at h
    refine ⟨by simp, ?_⟩
    split at h
    next hv => exact hv
    next => cases h
    next => cases h

theorem not_applied_of_begins {addon : Addon} {observed : Generation}
    (hphase : f.phase = .applying) (hplan : f.assignment.plan f.name
      (site.hub.config? f.assignment.target (f.assignment.configName f.name))
      (site.hub.addon? f.assignment.key.objectName) = .write addon observed) :
    f.incident? i site ≠ some .applied := by
  intro h
  obtain ⟨-, hv⟩ := verdict?_of_applied h
  simp only [verdict?, hphase, Assignment.observe, hplan] at hv
  split at hv
  · cases hv
  · split at hv <;> cases hv

/-- An application ends well only if its write is granted, or the addon is said to be missing. -/
theorem not_applied_of_refused {write : Write} (hphase : f.phase = .writing write)
    (hcall : write.call.advance site.now ≠ .inr .granted) (he : f.Expects Reply.IsHonest) :
    f.incident? i site ≠ some .applied := by
  intro h
  obtain ⟨-, hv⟩ := verdict?_of_applied h
  simp only [verdict?, hphase] at hv
  obtain ⟨⟨after, result⟩, hstep, hdone⟩ := Option.bind_eq_some_iff.mp hv
  obtain rfl : result = .inr .done := by
    cases result with
    | inl write => cases hdone
    | inr verdict =>
      cases hdone
      rfl
  unfold Write.step at hstep
  split at hstep
  next reply hreply =>
    cases reply with
    | granted => exact hcall hreply
    | crashed =>
      simp only [Write.finish] at hstep
      cases hstep
    | refused refusal =>
      have hhonest := ((he write hphase).advance site.now write.call.due).1 _ hreply
      rcases Write.verdict_cases (refusal.fault write.addon.key "") with ⟨key, hkey, -⟩ | hfailed
      · exact hhonest refusal _ key rfl hkey
      · simp only [Write.finish, hfailed] at hstep
        cases hstep
  next call =>
    split at hstep
    · cases hstep
    · split at hstep <;> cases hstep

theorem applied_of_commits {write : Write} {old : Addon} (hphase : f.phase = .writing write)
    (hcall : write.call.advance site.now = .inr .granted)
    (hold : site.hub.addon? write.addon.objectName = some old) :
    f.incident? i site = some .applied := by
  simp [incident?, verdict?, hphase, Write.step, hcall, Write.finish, hold]

/-- While the object has no positive generation, a sighting of it always asks for a write, of one
more than the addon has in it. -/
theorem Attends.plan_eq (h : f.Attends policy a feed site) (hpos : 0 < f.unapplied)
    {g : Generation} (hrec : site.hub.Records a g) (hroom : g.val < 9223372036854775807) :
    ∃ addon, f.assignment.plan f.name
      (site.hub.config? f.assignment.target (f.assignment.configName f.name))
      (site.hub.addon? f.assignment.key.objectName) = .write addon g.bump := by
  obtain ⟨hs, rfl, rfl, hnamed, -, -⟩ := h
  obtain ⟨config, hconfig, hnone⟩ := hs.uncounted
  obtain ⟨addon, reference, hstored, href, hfp, rfl⟩ := hrec
  have hbump := Generation.val_bump hroom
  have hne : reference.observed.bump ≠ reference.observed := fun he => by
    rw [he] at hbump
    omega
  refine ⟨addon.withObserved reference.observed.bump, ?_⟩
  rw [IsNamed.config_eq ⟨hs.serves, hnamed⟩ hpos, hconfig, hstored]
  simp only [Assignment.plan, href, hfp, ne_eq, not_true_eq_false, if_false, Generation.observe,
    Int.not_lt.mpr hnone, hne]

/-- So many sightings have been applied: the child has written that many generations, one by one
from the one that the addon had in it at first, and the addon has the last of them in it. -/
structure Tallies (first : Site) (p : Int) (a : Assignment) (i applied : Nat) (f : Follower)
    (site : Site) : Prop where
  written : ∃ fresh, site.written i = fresh ++ first.written i ∧
    fresh.reverse.map Generation.val = (List.range applied).map fun k : Nat => p + k + 1
  stored : ∃ g, site.hub.Records a g ∧ g.val = p + applied
  drafts : ∀ write, f.phase = .writing write → write.observed.val = p + applied + 1

namespace Tallies

variable {p : Int} {applied : Nat}

/-- Nothing is written, and what is about to be written follows on what the addon has in it. -/
theorem keeps (h : Tallies first p a i applied f site) (hw : next.writes = site.writes)
    (ha : next.hub.addons = site.hub.addons)
    (hd : ∀ write, f'.phase = .writing write → write.observed.val = p + applied + 1) :
    Tallies first p a i applied f' next := by
  obtain ⟨fresh, hfresh, hvalues⟩ := h.written
  obtain ⟨g, hg, hval⟩ := h.stored
  refine ⟨⟨fresh, ?_, hvalues⟩, ⟨g, hg.congr (Hub.addon?_congr _ ha), hval⟩, hd⟩
  rw [← hfresh, Site.written, hw]
  rfl

theorem commits {write : Write} {text : String} (h : Tallies first p a i applied f site)
    (hat : f.Attends policy a feed site) (hphase : f.phase = .writing write) :
    Tallies first p a i (applied + 1) (f.appliedOne site)
      ((write.commit (some i) site).log .debug text) := by
  obtain ⟨fresh, hfresh, hvalues⟩ := h.written
  obtain ⟨reference, href, -, hobserved⟩ := hat.drafted.reference hphase
  have hrecords := hat.drafted.records hphase site.hub
  rw [hat.assignment] at hrecords
  have hval := h.drafts write hphase
  refine ⟨⟨write.observed :: fresh, ?_, ?_⟩, ⟨write.observed, hrecords, ?_⟩,
    fun write hw => by cases hw⟩
  · have hwrites : ((write.commit (some i) site).log .debug text).writes =
        (some i, write.addon, site.now) :: site.writes := rfl
    rw [Site.written, hwrites]
    simp only [List.filterMap_cons, if_true, href, Option.map_some, hobserved, List.cons_append]
    exact congrArg _ hfresh
  · simp [List.range_succ, hvalues, hval]
  · omega

/-- A step applies a sighting by the write that it commits, and by nothing else. -/
theorem moves (h : Tallies first p a i applied f site) (hat : f.Attends policy a feed site)
    (hroom : 0 < f.unapplied → p + applied < 9223372036854775807)
    (hm : f.Moves i site next (.inl f')) :
    (f.incident? i site ≠ some .applied ∧ Tallies first p a i applied f' next) ∨
      (f.incident? i site = some .applied ∧ Tallies first p a i (applied + 1) f' next) := by
  have hlisten : f.phase = .listening → f.incident? i site ≠ some .applied :=
    fun hphase happlied => (verdict?_of_applied happlied).1 hphase
  obtain ⟨g, hg, hval⟩ := h.stored
  have hplans : 0 < f.unapplied → ∃ addon, f.assignment.plan f.name
      (site.hub.config? f.assignment.target (f.assignment.configName f.name))
      (site.hub.addon? f.assignment.key.objectName) = .write addon g.bump :=
    fun hpos => hat.plan_eq hpos hg (hval ▸ hroom hpos)
  have hdrafts : ∀ write, f'.phase = .writing write → write.observed.val = p + applied + 1 := by
    intro write hw
    rcases hm.writing hw with ⟨old, call, hphase, -, rfl⟩ | ⟨hpos, -, hplan⟩
    · exact h.drafts old hphase
    · obtain ⟨addon, hwrite⟩ := hplans hpos
      rw [hwrite] at hplan
      injection hplan with _ hobserved
      rw [← hobserved, Generation.val_bump (hval ▸ hroom hpos), hval]
  cases hm with
  | due moment hphase => exact .inl ⟨hlisten hphase, h.keeps rfl rfl hdrafts⟩
  | sights sighting hub hphase hr =>
    obtain ⟨_, _, -, -, rfl⟩ := Hub.receive_signal hr
    exact .inl ⟨hlisten hphase, h.keeps rfl rfl hdrafts⟩
  | misses fault hub text hphase hr =>
    obtain ⟨_, _, -, -, rfl⟩ := Hub.receive_signal hr
    exact .inl ⟨hlisten hphase, h.keeps rfl rfl hdrafts⟩
  | drains hphase hnone =>
    refine .inl ⟨fun happlied => ?_, h.keeps rfl rfl hdrafts⟩
    have hv := (verdict?_of_applied happlied).2
    simp [verdict?, hphase, hnone] at hv
  | skips next remark hphase hpos hplan =>
    obtain ⟨addon, hwrite⟩ := hplans hpos
    rw [hwrite] at hplan
    cases hplan
  | begins addon observed hphase hpos hplan =>
    exact .inl ⟨not_applied_of_begins hphase hplan, h.keeps rfl rfl hdrafts⟩
  | awaits write call hphase hcall =>
    exact .inl ⟨not_applied_of_refused hphase (by simp [hcall]) hat.expects,
      h.keeps rfl rfl hdrafts⟩
  | commits write text old hphase hcall hold =>
    exact .inr ⟨applied_of_commits hphase hcall hold, h.commits hat hphase⟩
  | vanishes write hphase hgone =>
    exfalso
    rcases hgone with ⟨-, hnone⟩ | ⟨refusal, key, hcall, hfault⟩
    · obtain ⟨addon, _, hstored, -⟩ := hg
      rw [hat.drafted.objectName hphase, hat.assignment, hstored] at hnone
      cases hnone
    · have hhonest := ((hat.expects write hphase).advance site.now write.call.due).1 _ hcall
      exact hhonest refusal write.addon.key key rfl hfault
  | fails write text backoff moment hphase hcall =>
    exact .inl ⟨not_applied_of_refused hphase hcall hat.expects, h.keeps rfl rfl hdrafts⟩

end Tallies

/-- As long as a sighting more can be counted, in the watcher and in the generation, every sighting
that has been applied has made the generation in the addon one more. -/
theorem RanOn.tallies {g : Generation} (h : RanOn policy a i feed first log f site)
    (hg : first.hub.Records a g) (hfew : Countable log)
    (hroom : g.val + log.count .sighted ≤ 9223372036854775807) :
    Tallies first g.val a i (log.count .applied) f site := by
  induction h with
  | start => exact ⟨⟨[], rfl, rfl⟩, ⟨g, hg, by simp⟩, fun write hw => by cases hw⟩
  | step site next log f f' h hstep ih =>
    have hpast : Countable log := fun past hp => hfew past (hp.trans (List.suffix_append _ _))
    rw [List.count_append] at hroom ⊢
    have hcounted := (h.ran.balances hpast).counted
    have ht := ih hpast (by omega)
    rcases ht.moves h.attends (fun hpos => by omega) (step_moves hstep) with
      ⟨hquiet, hnext⟩ | ⟨happlied, hnext⟩
    · rwa [List.count_eq_zero.mpr (by simpa using hquiet), Nat.zero_add]
    · rw [happlied]
      simpa [Nat.add_comm] using hnext
  | meanwhile site other log f h hs hl ih =>
    obtain ⟨⟨fresh, hfresh, hvalues⟩, ⟨g', hg', hval⟩, hd⟩ := ih hfew hroom
    exact ⟨⟨fresh, hl.written.trans hfresh, hvalues⟩, ⟨g', hg'.congr hl.addon, hval⟩, hd⟩

/-- A watcher whose object has no positive generation, and whose addon nobody else changes, counts
the sightings of it: as long as a sighting more can be counted, in the watcher and in the
generation, it writes the generations that follow on the one that the addon had in it at first, one
by one. The addon has the last of them in it, and that makes up for all sightings as soon as none
waits. The step that ends the watcher writes nothing. -/
theorem sightings_counted {g : Generation} (h : RanOn policy a i feed first log f site)
    (hg : first.hub.Records a g) (hfew : Countable log)
    (hroom : g.val + log.count .sighted ≤ 9223372036854775807) :
    (∃ fresh, site.written i = fresh ++ first.written i ∧ fresh.length = log.count .applied ∧
      fresh.reverse.map Generation.val =
        (List.range fresh.length).map fun k : Nat => g.val + k + 1) ∧
    log.count .applied + f.unapplied = log.count .sighted ∧
    (∃ g', site.hub.Records a g' ∧ g'.val = g.val + log.count .applied) ∧
    (f.unapplied = 0 → ∃ g', site.hub.Records a g' ∧ g'.val = g.val + log.count .sighted) ∧
    ∀ cancelled next ending, f.step i cancelled site = some (next, .inr ending) →
      next.written i = site.written i := by
  have ht := h.tallies hg hfew hroom
  have hcounted := (h.ran.balances hfew).counted
  refine ⟨?_, hcounted, ht.stored, fun hnone => ?_, fun cancelled next ending hend => ?_⟩
  · obtain ⟨fresh, hfresh, hvalues⟩ := ht.written
    have hlen : fresh.length = log.count .applied := by
      simpa using congrArg List.length hvalues
    exact ⟨fresh, hfresh, hlen, hlen ▸ hvalues⟩
  · obtain ⟨g', hg', hval⟩ := ht.stored
    exact ⟨g', hg', by omega⟩
  · cases cancelled with
    | true =>
      cases hend
      rfl
    | false =>
      rcases (step_moves hend).writes with he | ⟨write, -, hresult, -⟩
      · rw [Site.written, he]
        rfl
      · cases hresult

/-- So many steps, one after the other, on the site that the watcher has. -/
def runAlone (i : Nat) : Nat → List Incident × Follower × Site →
    Option (List Incident × Follower × Site)
  | 0, account => some account
  | steps + 1, (log, f, site) =>
    match f.step i false site with
    | some (next, .inl f') => runAlone i steps ((f.incident? i site).toList ++ log, f', next)
    | _ => none

theorem RanOn.runAlone {steps : Nat} {run : List Incident × Follower × Site}
    (h : RanOn policy a i feed first log f site)
    (hrun : Follower.runAlone i steps (log, f, site) = some run) :
    RanOn policy a i feed first run.1 run.2.1 run.2.2 := by
  induction steps generalizing log f site with
  | zero =>
    cases hrun
    exact h
  | succ steps ih =>
    simp only [Follower.runAlone] at hrun
    split at hrun
    next next f' hstep => exact ih (h.step site next log f f' hstep) hrun
    next => cases hrun

theorem RanOn.later (h : RanOn policy a i feed first log f site) (moment : Nat) :
    RanOn policy a i feed first log f { site with now := moment } :=
  have hs := h.attends.suits
  h.meanwhile site _ log f ⟨hs.policy, hs.serves, hs.uncounted, hs.honest⟩ ⟨rfl, rfl⟩

/-- The object has no generation; it is seen twice, its stream fails in between, and the first write
of the addon meets a conflict. -/
def uncounted : Site where
  hub := {
    addons := [Supervision.specimen "a" "x"]
    configs := [⟨"cfg.test", "v1", "tests", ⟨some "ns", "x"⟩, none⟩]
    feeds := [{
      topic := some Supervision.firstAssignment.target
      queue := [.ok ⟨⟨some "ns", "x"⟩, true⟩, .error (.request .transport),
        .ok ⟨⟨some "ns", "x"⟩, true⟩] }]
    writes := ⟨[.refuse .conflict], .grant⟩ }

theorem suits_uncounted :
    uncounted.Suits ({} : Settings).retry Supervision.firstAssignment 0 := by
  refine ⟨rfl, ⟨_, rfl, rfl, ?_⟩, ⟨_, rfl, by decide⟩, ?_⟩
  · simp [Supervision.firstAssignment]
  · refine ⟨fun act hact => ?_, fun refusal key found he => by cases he⟩
    obtain rfl := List.mem_singleton.mp hact
    intro refusal key found he
    cases he
    simp [Refusal.fault]

/-- Behind a failure both sightings are applied: the first two generations are written. -/
theorem sightings_counted_first : ∃ (log : List Incident) (f : Follower) (site : Site),
    RanOn ({} : Settings).retry Supervision.firstAssignment 0 0 uncounted log f site ∧
    log = [.applied, .applied, .sighted, .missed, .failed 0, .sighted] ∧ f.unapplied = 0 ∧
    uncounted.hub.Records Supervision.firstAssignment .zero ∧ Countable log ∧
    (site.written 0).map Generation.val = [2, 1] ∧
    ∃ g, site.hub.Records Supervision.firstAssignment g ∧ g.val = 2 := by
  have hstart := RanOn.start (i := 0) suits_uncounted
  have hrun : ((runAlone 0 5 ([], .start ({} : Settings).retry Supervision.firstAssignment 0,
      uncounted)).any fun (log, f, site) =>
        (runAlone 0 6 (log, f, { site with now := 1000 })).any fun (log, f, site) =>
          log = [.applied, .applied, .sighted, .missed, .failed 0, .sighted] && f.unapplied = 0 &&
            (site.written 0).map Generation.val = [2, 1]) = true := by
    decide +kernel
  obtain ⟨before, hbefore, hrun⟩ := (Option.any_eq_true ..).mp hrun
  obtain ⟨⟨log, f, site⟩, hafter, hp⟩ := (Option.any_eq_true ..).mp hrun
  simp only [Bool.and_eq_true, decide_eq_true_eq] at hp
  obtain ⟨⟨hlog, hnone⟩, hwritten⟩ := hp
  have hran : RanOn ({} : Settings).retry Supervision.firstAssignment 0 0 uncounted log f site :=
    ((hstart.runAlone hbefore).later 1000).runAlone hafter
  have hrecords : uncounted.hub.Records Supervision.firstAssignment .zero :=
    ⟨Supervision.specimen "a" "x", _, rfl, rfl, by decide, rfl⟩
  have hcount : log.count .sighted = 2 := by
    rw [hlog]
    decide
  have hfew : Countable log := countable_of_length_le (by rw [hlog]; decide)
  obtain ⟨-, -, -, hstored, -⟩ :=
    sightings_counted hran hrecords hfew (by rw [hcount]; decide)
  obtain ⟨g, hg, hval⟩ := hstored hnone
  rw [hcount] at hval
  exact ⟨log, f, site, hran, hlog, hnone, hrecords, hfew, hwritten, g, hg, hval⟩

end Follower

end AddonWatch

import AddonWatch.Proofs.Commits
import AddonWatch.Proofs.Convergence
import AddonWatch.Proofs.Naming
import Mathlib.Data.List.Chain

namespace AddonWatch

namespace Supervision

variable {w : Surroundings} {s next : Supervision} {past : List Supervision} {i : Nat}
  {a b : Assignment} {g observed : Generation} {key : AddonKey} {reference : Reference}

/-- The states that a run comes to, with the states that it has come through, the latest first. -/
inductive ReachedBy (w : Surroundings) : Supervision → List Supervision → Prop
  | start (s : Supervision) (hf : s.IsFresh) (ha : w.admits s.site.hub) : ReachedBy w s []
  | next (s s' : Supervision) (past : List Supervision) (h : ReachedBy w s past)
      (hm : s.Moves w s') : ReachedBy w s' (s :: past)

theorem ReachedBy.reached (h : s.ReachedBy w past) : s.Reached w := by
  induction h with
  | start s hf ha => exact .start s hf ha
  | next s s' past _ hm ih => exact .next s s' ih hm

/-- Whenever the object is there it has a positive generation, and never a lower one than before;
the latest state comes first. -/
structure Rises (target : Target) (run : List Supervision) : Prop where
  counts : ∀ s ∈ run, ∀ config, s.site.hub.config? target target.objectName = some config →
    ∃ generation, s.site.hub.Counts target generation
  rises : run.Pairwise fun new old => ∀ low high, old.site.hub.Counts target low →
    new.site.hub.Counts target high → low.val ≤ high.val

/-- Somebody else has changed the stored addon: it is another, and no watcher has written. -/
def Meddled (key : AddonKey) (new old : Supervision) : Prop :=
  new.site.writes = old.site.writes ∧
    new.site.hub.addon? key.objectName ≠ old.site.hub.addon? key.objectName

theorem Rises.earlier {target : Target} (h : Rises target (next :: s :: past)) :
    Rises target (s :: past) :=
  ⟨fun st hst => h.counts st (List.mem_cons_of_mem _ hst), h.rises.tail⟩

theorem Rises.le {target : Target} (h : Rises target (s :: past)) {st : Supervision}
    (hst : st ∈ s :: past) {low high : Generation} (hlow : st.site.hub.Counts target low)
    (hhigh : s.site.hub.Counts target high) : low.val ≤ high.val := by
  rcases List.mem_cons.mp hst with rfl | hst
  · exact Int.le_of_eq (congrArg Generation.val (hlow.unique hhigh))
  · exact (List.pairwise_cons.mp h.rises).1 st hst low high hlow hhigh

/-- What a watcher begins to write is the generation of its object as it is. -/
theorem Resolves.counts (hr : s.Resolves i a observed) (h : s.Reached .naming)
    (hcounts : ∀ config, s.site.hub.config? a.target a.target.objectName = some config →
      ∃ generation, s.site.hub.Counts a.target generation) :
    s.site.hub.Counts a.target observed := by
  obtain ⟨-, f, addon, hb, rfl, hpos, hplan⟩ := hr
  have hname := (h.named i f hb).config_eq hpos
  obtain ⟨config, old, r, hc, -⟩ := Assignment.plan_write hplan
  rw [hname] at hc
  obtain ⟨generation, hcount⟩ := hcounts config hc
  exact Assignment.observed_of_plan hname hplan hcount ▸ hcount

/-- A watcher begins to write only if the addon has its reference and another generation in it. -/
theorem Resolves.ne_recorded (hr : s.Resolves i b observed) (hrec : s.site.hub.Records a g)
    (hk : b.key = a.key) : b.fingerprint = a.fingerprint ∧ observed ≠ g := by
  obtain ⟨-, f, addon, hb, rfl, hpos, hplan⟩ := hr
  obtain ⟨config, old, r, -, hold, -, href, hfp, -, hne⟩ := Assignment.plan_write hplan
  obtain ⟨stored, r', hs, href', hfp', rfl⟩ := hrec
  rw [hk] at hold
  obtain rfl : old = stored := Option.some.inj (hold.symm.trans hs)
  obtain rfl : r = r' := Option.some.inj (href.symm.trans href')
  exact ⟨hfp.symm.trans hfp', hne⟩

/-- Behind the write of a watcher no write of that addon is waited for. -/
theorem Commits.not_drafts (hc : s.Commits next i a observed) (h : s.Reached w)
    (hm : s.Moves w next) {j : Nat} (hk : b.key = a.key) : ¬next.Drafts j b g := by
  intro hd
  have hlive : s.site.Live j b := by
    rcases h.drafts_origin hm hd with hold | hbegun
    · exact hold.live
    · exact hbegun.live
  obtain rfl : j = i := h.orderly.single j i b a hlive hc.drafts.live hk
  exact hc.free b g hd

/-- What watchers of the addon have written since the start of the run, and what they are about to
write, are generations that the object has had; they rise. -/
structure Ascends (key : AddonKey) (reference : Reference) (s : Supervision)
    (past : List Supervision) : Prop where
  shown : ∀ g ∈ s.site.commits key reference.fingerprint,
    ∃ st ∈ s :: past, st.site.hub.Counts reference.target g
  drafts : ∀ i a g, s.Drafts i a g → a.key = key → a.fingerprint = reference.fingerprint →
    (∃ st ∈ s :: past, st.site.hub.Counts reference.target g) ∧
      ∀ old ∈ s.site.commits key reference.fingerprint, old.val ≤ g.val
  sorted : (s.site.commits key reference.fingerprint).Pairwise fun new old => old.val ≤ new.val

/-- The target of an assignment with the fingerprint of a reference is that of the reference. -/
theorem target_of_live (h : s.Reached .naming) (hl : s.site.Live i a)
    (hfp : a.fingerprint = reference.fingerprint) : a.target = reference.target := by
  obtain ⟨-, child, hc, ha, -⟩ := hl
  obtain ⟨f, hb, rfl⟩ := Child.guarded_of_assignment? ha
  have hbody := Site.getElem?_bodies.mpr ⟨child, hc, hb⟩
  exact (h.faithful_naming.bodies i f hbody).target_eq hfp.symm

/-- A write that is waited for behind a move, with no write of that addon in between. -/
theorem Ascends.draft (ha : Ascends key reference s past) (h : s.Reached .naming)
    (hrises : Rises reference.target (s :: past)) (hm : s.Moves .naming next)
    (hd : next.Drafts i a g) (hk : a.key = key) (hfp : a.fingerprint = reference.fingerprint) :
    (∃ st ∈ s :: past, st.site.hub.Counts reference.target g) ∧
      ∀ old ∈ s.site.commits key reference.fingerprint, old.val ≤ g.val := by
  rcases h.drafts_origin hm hd with hold | hbegun
  · exact ha.drafts i a g hold hk hfp
  · have htarget := target_of_live h hbegun.live hfp
    have hcount := hbegun.counts h (htarget ▸ hrises.counts s List.mem_cons_self)
    rw [htarget] at hcount
    refine ⟨⟨s, List.mem_cons_self, hcount⟩, fun old ho => ?_⟩
    obtain ⟨st, hst, hshown⟩ := ha.shown old ho
    exact hrises.le hst hshown hcount

theorem Ascends.moves (ha : Ascends key reference s past) (h : s.Reached .naming)
    (hrises : Rises reference.target (s :: past)) (hm : s.Moves .naming next) :
    Ascends key reference next (s :: past) := by
  have hlater : ∀ {g : Generation}, (∃ st ∈ s :: past, st.site.hub.Counts reference.target g) →
      ∃ st ∈ next :: s :: past, st.site.hub.Counts reference.target g := by
    rintro g ⟨st, hst, hg⟩
    exact ⟨st, List.mem_cons_of_mem _ hst, hg⟩
  have hkeep : next.site.commits key reference.fingerprint =
      s.site.commits key reference.fingerprint → Ascends key reference next (s :: past) := by
    intro he
    refine ⟨fun g hg => hlater (ha.shown g (he ▸ hg)), fun i a g hd hk hfp => ?_, he ▸ ha.sorted⟩
    obtain ⟨hshown, hle⟩ := ha.draft h hrises hm hd hk hfp
    exact ⟨hlater hshown, he ▸ hle⟩
  rcases h.quiet_or_commits hm with ⟨-, hsame⟩ | ⟨i, a, g, hc⟩
  · exact hkeep (hsame _ _)
  · by_cases hmine : a.key = key ∧ a.fingerprint = reference.fingerprint
    · obtain ⟨rfl, hfp⟩ := hmine
      obtain ⟨hshown, hle⟩ := ha.drafts i a g hc.drafts rfl hfp
      have he := hc.mine
      rw [hfp] at he
      refine ⟨fun new hn => ?_, fun j b new hd hk => absurd hd (hc.not_drafts h hm hk), ?_⟩
      · rw [he] at hn
        rcases List.mem_cons.mp hn with rfl | hold
        · exact hlater hshown
        · exact hlater (ha.shown new hold)
      · rw [he]
        exact List.pairwise_cons.mpr ⟨hle, ha.sorted⟩
    · exact hkeep (hc.apart _ _ hmine)

theorem ReachedBy.ascends (h : s.ReachedBy .naming past)
    (hrises : Rises reference.target (s :: past)) (key : AddonKey) :
    Ascends key reference s past := by
  induction h with
  | start s hf ha =>
    have hnone : s.site.writes = [] := by simp [Site.writes, hf.trace]
    have hcommits : s.site.commits key reference.fingerprint = [] := by
      simp [Site.commits, hnone]
    refine ⟨by simp [hcommits], fun i a g hd => ?_, by simp [hcommits]⟩
    obtain ⟨-, f, write, hb, -⟩ := hd
    simp [Site.bodies, hf.children] at hb
  | next s s' past h hm ih => exact (ih hrises.earlier).moves h.reached hrises.earlier hm

/-- The addon has that generation in it, and whoever is about to write it will write another. -/
structure Settled (s : Supervision) (a : Assignment) (observed : Generation) : Prop where
  records : s.site.hub.Records a observed
  drafts : ∀ i b g, s.Drafts i b g → b.key = a.key → b.fingerprint = a.fingerprint ∧ g ≠ observed

theorem Settled.keeps (hs : s.Settled a observed) (h : s.Reached w) (hm : s.Moves w next)
    (hsame : next.site.hub.addon? a.key.objectName = s.site.hub.addon? a.key.objectName) :
    next.Settled a observed := by
  refine ⟨hs.records.congr hsame, fun i b g hd hk => ?_⟩
  rcases h.drafts_origin hm hd with hold | hbegun
  · exact hs.drafts i b g hold hk
  · exact hbegun.ne_recorded hs.records hk

theorem Settled.lt (hs : s.Settled a observed) (hd : s.Drafts i b g) (hk : b.key = a.key)
    (hle : observed.val ≤ g.val) : observed.val < g.val :=
  Int.lt_iff_le_and_ne.mpr ⟨hle, fun he => (hs.drafts i b g hd hk).2 (Generation.ext he.symm)⟩

/-- What watchers with that fingerprint have written into the addon while nobody else changed it:
it rises, and the addon still has the last of it in it. -/
structure Climbs (s : Supervision) (key : AddonKey) (fingerprint : Fingerprint)
    (fresh : List Generation) : Prop where
  sorted : fresh.Pairwise fun new old => old.val < new.val
  settled : ∀ last rest, fresh = last :: rest → ∃ a : Assignment, a.key = key ∧
    a.fingerprint = fingerprint ∧ s.Settled a last

theorem Climbs.keeps {fingerprint : Fingerprint} {fresh : List Generation}
    (hcl : s.Climbs key fingerprint fresh) (h : s.Reached w) (hm : s.Moves w next)
    (hsame : next.site.hub.addon? key.objectName = s.site.hub.addon? key.objectName) :
    next.Climbs key fingerprint fresh := by
  refine ⟨hcl.sorted, fun last rest hl => ?_⟩
  obtain ⟨a, rfl, hfp, hs⟩ := hcl.settled last rest hl
  exact ⟨a, rfl, hfp, hs.keeps h hm hsame⟩

theorem Climbs.commits {fresh : List Generation} (hcl : s.Climbs a.key a.fingerprint fresh)
    (h : s.Reached w) (hm : s.Moves w next) (hc : s.Commits next i a g)
    (hle : ∀ old ∈ fresh, old.val ≤ g.val) : next.Climbs a.key a.fingerprint (g :: fresh) := by
  refine ⟨List.pairwise_cons.mpr ⟨fun old ho => ?_, hcl.sorted⟩, fun last rest hl => ?_⟩
  · cases fresh with
    | nil => cases ho
    | cons last rest =>
      obtain ⟨b, hb, -, hs⟩ := hcl.settled last rest rfl
      have hlt := hs.lt hc.drafts hb.symm (hle last List.mem_cons_self)
      rcases List.mem_cons.mp ho with rfl | ho
      · exact hlt
      · exact Int.lt_trans ((List.pairwise_cons.mp hcl.sorted).1 old ho) hlt
  · cases hl
    exact ⟨a, rfl, rfl, hc.records, fun j b g hd hk => absurd hd (hc.not_drafts h hm hk)⟩

theorem Climbs.moves {fingerprint : Fingerprint} {fresh : List Generation}
    (hcl : s.Climbs key fingerprint fresh) (h : s.Reached w) (hm : s.Moves w next)
    (halone : ¬Meddled key next s)
    (hle : ∀ i a g, s.Drafts i a g → a.key = key → a.fingerprint = fingerprint →
      ∀ old ∈ fresh, old.val ≤ g.val) :
    ∃ more, next.site.commits key fingerprint = more ++ s.site.commits key fingerprint ∧
      next.Climbs key fingerprint (more ++ fresh) := by
  rcases h.quiet_or_commits hm with ⟨hw, hsame⟩ | ⟨i, a, g, hc⟩
  · have ha : next.site.hub.addon? key.objectName = s.site.hub.addon? key.objectName := by
      by_contra hne
      exact halone ⟨hw, hne⟩
    exact ⟨[], hsame _ _, hcl.keeps h hm ha⟩
  · by_cases hmine : a.key = key ∧ a.fingerprint = fingerprint
    · obtain ⟨rfl, rfl⟩ := hmine
      exact ⟨[g], hc.mine, hcl.commits h hm hc (hle i a g hc.drafts rfl rfl)⟩
    · refine ⟨[], hc.apart _ _ hmine, hcl.sorted, fun last rest hl => ?_⟩
      obtain ⟨b, rfl, hfp, hs⟩ := hcl.settled last rest hl
      have hkey : a.key ≠ b.key := fun hk =>
        hmine ⟨hk, (hs.drafts i a g hc.drafts hk).1.trans hfp⟩
      have hsame := hc.others b.key.objectName fun he => hkey (AddonKey.objectName_inj he.symm)
      exact ⟨b, rfl, hfp, hs.keeps h hm hsame⟩

/-- While nobody else changes the addon, what watchers of it write rises strictly. -/
theorem ReachedBy.climbs (h : s.ReachedBy .naming past)
    (hrises : Rises reference.target (s :: past)) {stretch earlier : List Supervision}
    {mid : Supervision} (hrun : s :: past = stretch ++ mid :: earlier)
    (halone : (stretch ++ [mid]).IsChain fun new old => ¬Meddled key new old) :
    ∃ fresh, s.site.commits key reference.fingerprint =
      fresh ++ mid.site.commits key reference.fingerprint ∧
        s.Climbs key reference.fingerprint fresh := by
  induction h generalizing stretch with
  | start s hf ha =>
    cases stretch with
    | nil =>
      cases hrun
      exact ⟨[], rfl, .nil, by simp⟩
    | cons first stretch => simp at hrun
  | next s s' past h hm ih =>
    cases stretch with
    | nil =>
      cases hrun
      exact ⟨[], rfl, .nil, by simp⟩
    | cons first stretch =>
      obtain ⟨rfl, hpast⟩ := List.cons.inj hrun
      have hfirst : ∃ rest, stretch ++ [mid] = s :: rest := by
        cases stretch with
        | nil => exact ⟨[], by cases hpast; rfl⟩
        | cons second stretch => exact ⟨stretch ++ [mid], by rw [(List.cons.inj hpast).1]; rfl⟩
      obtain ⟨rest, hrest⟩ := hfirst
      rw [List.cons_append, hrest] at halone
      obtain ⟨hquiet, htail⟩ := List.isChain_cons_cons.mp halone
      obtain ⟨fresh, he, hcl⟩ := ih hrises.earlier hpast (hrest ▸ htail)
      have hdrafts := (h.ascends hrises.earlier key).drafts
      obtain ⟨more, hmore, hclimbs⟩ := hcl.moves h.reached hm hquiet
        fun i a g hd hk hfp old ho => (hdrafts i a g hd hk hfp).2 old (by simp [he, ho])
      exact ⟨more ++ fresh, by rw [hmore, he, List.append_assoc], hclimbs⟩

theorem ReachedBy.split (h : s.ReachedBy w past) {stretch earlier : List Supervision}
    {mid before : Supervision} (hrun : s :: past = stretch ++ mid :: before :: earlier) :
    before.Reached w ∧ before.Moves w mid := by
  induction h generalizing stretch with
  | start s hf ha =>
    have hlen := congrArg List.length hrun
    simp at hlen
    omega
  | next s s' past h hm ih =>
    cases stretch with
    | nil =>
      cases hrun
      exact ⟨h.reached, hm⟩
    | cons first stretch => exact ih (List.cons.inj hrun).2

/-- Behind the write of a generation nothing is written while nobody else changes the addon and the
object has no other generation. -/
theorem ReachedBy.unwritten (h : s.ReachedBy .naming past)
    (hrises : Rises reference.target (s :: past)) {stretch earlier : List Supervision}
    {mid before : Supervision} (hrun : s :: past = stretch ++ mid :: before :: earlier)
    (halone : (stretch ++ [mid]).IsChain fun new old => ¬Meddled key new old)
    (hwrote : mid.site.commits key reference.fingerprint =
      g :: before.site.commits key reference.fingerprint)
    (hg : s.site.hub.Counts reference.target g) :
    s.site.commits key reference.fingerprint = mid.site.commits key reference.fingerprint := by
  obtain ⟨hbefore, hstep⟩ := h.split hrun
  have hown : ¬Meddled key mid before := by
    rintro ⟨hw, -⟩
    rw [commits_of_writes hbefore hstep hw] at hwrote
    simp at hwrote
  obtain ⟨more, hmore, -⟩ := h.climbs hrises hrun halone
  have hchain : ((stretch ++ [mid]) ++ [before]).IsChain fun new old => ¬Meddled key new old := by
    rw [List.append_assoc]
    exact List.isChain_append_cons_cons.mpr ⟨halone, hown, .singleton _⟩
  have hrun' : s :: past = (stretch ++ [mid]) ++ before :: earlier := by simpa using hrun
  obtain ⟨fresh, hfresh, hcl⟩ := h.climbs hrises hrun' hchain
  have he : fresh = more ++ [g] := by
    refine List.append_left_injective (before.site.commits key reference.fingerprint) ?_
    change fresh ++ _ = more ++ [g] ++ _
    rw [← hfresh, hmore, hwrote, List.append_assoc]
    rfl
  suffices more = [] by simpa [this] using hmore
  refine List.eq_nil_iff_forall_not_mem.mpr fun new hn => ?_
  obtain ⟨st, hst, hshown⟩ := (h.ascends hrises key).shown new (by simp [hmore, hn])
  have hle := hrises.le hst hshown hg
  have hlt := (List.pairwise_append.mp (he ▸ hcl.sorted)).2.2 new hn g List.mem_cons_self
  omega

/-- If references hold no slashes, streams tell of their object alone, and the object has a positive
generation that never falls, then what watchers of it write into an addon, whichever of them and
however often, are generations that the object has had, and they never fall. They rise as long as
nobody else changes the addon: behind the write of a generation nothing is written then until the
object has another. -/
theorem commits_rise (h : s.ReachedBy .naming past) (hrises : Rises reference.target (s :: past))
    (key : AddonKey) :
    (s.site.commits key reference.fingerprint).Pairwise (fun new old => old.val ≤ new.val) ∧
    (∀ g ∈ s.site.commits key reference.fingerprint,
      ∃ st ∈ s :: past, st.site.hub.Counts reference.target g) ∧
    (∀ stretch mid earlier, s :: past = stretch ++ mid :: earlier →
      ((stretch ++ [mid]).IsChain fun new old => ¬Meddled key new old) →
        ∃ fresh, s.site.commits key reference.fingerprint =
          fresh ++ mid.site.commits key reference.fingerprint ∧
            fresh.Pairwise fun new old => old.val < new.val) ∧
    ∀ stretch mid before earlier g, s :: past = stretch ++ mid :: before :: earlier →
      ((stretch ++ [mid]).IsChain fun new old => ¬Meddled key new old) →
      mid.site.commits key reference.fingerprint =
        g :: before.site.commits key reference.fingerprint →
      s.site.hub.Counts reference.target g →
        s.site.commits key reference.fingerprint =
          mid.site.commits key reference.fingerprint := by
  have hasc := h.ascends hrises key
  refine ⟨hasc.sorted, hasc.shown, fun stretch mid earlier hrun halone => ?_,
    fun stretch mid before earlier g => h.unwritten hrises⟩
  obtain ⟨fresh, he, hcl⟩ := h.climbs hrises hrun halone
  exact ⟨fresh, he, hcl.sorted⟩

/-- The tasks go on in that order, one step each, from a state with those before it. -/
def trail (s : Supervision) (past : List Supervision) :
    List Task → Option (Supervision × List Supervision)
  | [] => some (s, past)
  | t :: rest => (s.step t).bind fun next => next.trail (s :: past) rest

theorem ReachedBy.trail (h : s.ReachedBy w past) {tasks : List Task}
    {run : Supervision × List Supervision} (hrun : s.trail past tasks = some run) :
    run.1.ReachedBy w run.2 := by
  induction tasks generalizing s past with
  | nil =>
    cases hrun
    exact h
  | cons t rest ih =>
    obtain ⟨next, hstep, hrun⟩ := Option.bind_eq_some_iff.mp hrun
    exact ih (.next s next past h (.task t next hstep)) hrun

theorem exists_of_trail (tasks : List Task) {p : Supervision × List Supervision → Bool}
    (h : s.ReachedBy w past) (hp : (s.trail past tasks).any p = true) :
    ∃ s past, ReachedBy w s past ∧ p (s, past) = true := by
  obtain ⟨run, hrun, hp⟩ := (Option.any_eq_true ..).mp hp
  exact ⟨run.1, run.2, h.trail hrun, hp⟩

/-- The generation that the object has, if it is there and has one. -/
def shown? (target : Target) (s : Supervision) : Option Int :=
  (s.site.hub.config? target target.objectName).bind fun config =>
    config.generation.map Generation.val

/-- In all states the object is there, or gone, and its generations rise. -/
def isRising (target : Target) (run : List Supervision) : Bool :=
  (run.all fun s => (s.site.hub.config? target target.objectName).all fun config =>
    config.generation.any fun generation => 0 < generation.val) &&
  decide ((run.filterMap (shown? target)).Pairwise fun new old => old ≤ new)

theorem rises_of_isRising {target : Target} {run : List Supervision}
    (h : isRising target run = true) : Rises target run := by
  obtain ⟨hall, hsorted⟩ := (Bool.and_eq_true ..).mp h
  refine ⟨fun s hs config hc => ?_, ?_⟩
  · have hone := List.all_eq_true.mp hall s hs
    rw [hc] at hone
    obtain ⟨generation, hg, hpos⟩ := (Option.any_eq_true ..).mp hone
    exact ⟨generation, of_decide_eq_true hpos, config, hc, hg⟩
  · refine (List.pairwise_filterMap.mp (of_decide_eq_true hsorted)).imp ?_
    rintro new old hle low high ⟨-, config, hc, hg⟩ ⟨-, config', hc', hg'⟩
    exact hle high.val (by simp [shown?, hc', hg']) low.val (by simp [shown?, hc, hg])

/-- The object of the first addon has been changed once more, and its streams are told. -/
def bumped (s : Supervision) : Supervision :=
  { s with site := { s.site with
    hub := (s.site.hub.storeConfig ⟨"cfg.test", "v1", "tests", ⟨some "ns", "x"⟩,
      Generation.ofInt? 2⟩).announceConfig firstAssignment.target ⟨some "ns", "x"⟩ true } }

/-- Every stream of one target tells of its object alone, as far as it can be computed. -/
def isNamed (hub : Hub) : Bool :=
  hub.feeds.all fun feed => feed.topic.all fun target => feed.queue.all fun
    | .ok sighting => sighting.object.name = target.name
    | .error _ => true

theorem isNamed_of_computed {hub : Hub} (h : isNamed hub = true) : hub.IsNamed := by
  intro feed hf target ht sighting hs
  have hfeed := List.all_eq_true.mp h feed hf
  rw [ht] at hfeed
  simpa using List.all_eq_true.mp hfeed _ hs

theorem ReachedBy.bumped (h : s.ReachedBy .naming past) (hn : isNamed s.bumped.site.hub = true) :
    s.bumped.ReachedBy .naming (s :: past) := by
  refine .next s _ past h
    (.hub _ ⟨h.reached.faithful_naming.hub, fun n f hf => ?_, isNamed_of_computed hn⟩)
  simp only [Hub.announceConfig, Hub.broadcast, Hub.storeConfig, List.getElem?_map, hf,
    Option.map_some]
  refine ⟨_, rfl, ?_⟩
  split
  · unfold Feed.push
    split <;> rfl
  · rfl

/-- What the watcher of the first addon is started by. -/
def firstReference : Reference :=
  { group := "cfg.test", version := "v1", resource := "tests", ns := "ns", name := "x" }

/-- The first addon gets the first generation of its object written into it, and then the second. -/
theorem commits_rise_first : ∃ (s : Supervision) (past : List Supervision),
    s.ReachedBy .naming past ∧ Rises firstReference.target (s :: past) ∧
    (s.site.commits ⟨"ns", "a"⟩ firstReference.fingerprint).map Generation.val = [2, 1] ∧
    (s.site.commits ⟨"ns", "a"⟩ firstReference.fingerprint).Pairwise
      fun new old => old.val ≤ new.val := by
  have hstart : sparing.ReachedBy .naming [] :=
    .start _ ⟨rfl, rfl, rfl, rfl, rfl, rfl⟩ slashFree_overreaching
  obtain ⟨s, past, hs, hp⟩ := exists_of_trail settling hstart
    (p := fun (s, past) => isNamed s.bumped.site.hub &&
      (s.bumped.trail (s :: past) (List.replicate 4 (.child 0))).any fun (s, past) =>
        isRising firstReference.target (s :: past) &&
        (s.site.commits ⟨"ns", "a"⟩ firstReference.fingerprint).map Generation.val = [2, 1])
    (by decide +kernel)
  obtain ⟨hnamed, hp⟩ := (Bool.and_eq_true ..).mp hp
  obtain ⟨s', past', hs', hp⟩ := exists_of_trail _ (hs.bumped hnamed) hp
  obtain ⟨hrising, hcommits⟩ := (Bool.and_eq_true ..).mp hp
  have hrises := rises_of_isRising hrising
  exact ⟨s', past', hs', hrises, of_decide_eq_true hcommits, (commits_rise hs' hrises _).1⟩

end Supervision

end AddonWatch

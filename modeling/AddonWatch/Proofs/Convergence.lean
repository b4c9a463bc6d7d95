import AddonWatch.Proofs.Minding

namespace AddonWatch

/-- The stream of all addons that is opened holds a sighting of every stored addon. -/
theorem Hub.holds_openAddons {hub : Hub} {object : ObjectName} {addon : Addon}
    (h : hub.addon? object = some addon) : hub.openAddons.1.Holds hub.feeds.length object := by
  refine ⟨_, List.getElem?_concat_length, true, ?_⟩
  exact List.mem_map.mpr ⟨addon, mem_of_addon? h, by rw [objectName_of_addon? h]⟩

/-- A registered handle that counts as current is of a live child of the right target. -/
theorem Desk.Orderly.live_of_isCurrent {desk : Desk} {site : Site} {mine : String → Prop}
    (ho : desk.Orderly site mine)
    (hfaithful : ∀ i a, site.assignment? i = some a → a.IsFaithful) {key : AddonKey}
    {handle : Handle} {reference : Reference} (hg : desk.roster.get? key = some handle)
    (hc : handle.isCurrent site reference.fingerprint = true) :
    site.Live handle.child ⟨key, reference.fingerprint, reference.target⟩ := by
  obtain ⟨-, a, ha, hkey, hfp⟩ := ho.entries _ (Roster.mem_of_get? hg)
  simp only [Handle.isCurrent, Bool.and_eq_true, decide_eq_true_eq] at hc
  have htarget : a.target = reference.target :=
    (hfaithful _ _ ha).target_eq (hc.1.symm.trans hfp.symm)
  have hlive := handle.live_of_isLive ha hc.2
  rw [← hc.1, ← htarget]
  obtain ⟨k, fp, target⟩ := a
  obtain rfl : k = key := hkey
  obtain rfl : fp = handle.fingerprint := hfp
  exact hlive

namespace Supervision

variable {s next : Supervision} {key : AddonKey}

/-- As long as work is handed out and the desk of the key stands, the key is told of or asked for,
or the desk answers for it. -/
def Minds (s : Supervision) (key : AddonKey) : Prop :=
  ∀ (feed : Nat) (tick : Span) (streaming : Bool) (desk : Desk),
    s.lead = .leading feed streaming tick →
    s.site.halted = false → s.desks[s.partition key.text]? = some desk → desk.isDown = false →
      (s.site.hub.Holds feed key.objectName ∨ key.text ∈ s.site.exits) ∨
        desk.Asks key.text ∨ desk.Answers s.site key

theorem Faithful.assignments (h : s.Faithful) {i : Nat} {a : Assignment}
    (ha : s.site.assignment? i = some a) : a.IsFaithful := by
  obtain ⟨child, hc, ha⟩ := Option.bind_eq_some_iff.mp ha
  obtain ⟨f, hb, rfl⟩ := Child.guarded_of_assignment? ha
  exact h.bodies i f (Site.getElem?_bodies.mpr ⟨child, hc, hb⟩)

theorem Minds.child {site : Site} {i : Nat} {child : Child} {f : Follower} (h : s.Minds key)
    (hch : s.Channels) (hreports : s.site.reportsExits = true)
    (hc : s.site.children[i]? = some child) (hb : child.body = .guarded f)
    (hm : s.site.ChildMoves i child f site) :
    ({ s with site := site } : Supervision).Minds key := by
  intro feed tick streaming desk hlead hh hd hup
  have hages := hm.ages hc hb
  obtain ⟨g, hg, htopic, hclosed⟩ := hch.lead feed streaming tick hlead
  have hfeed : f.feed ≠ feed := by
    rintro rfl
    obtain ⟨k, hk, ht⟩ := hch.bodies i f (Site.getElem?_bodies.mpr ⟨child, hc, hb⟩)
    obtain rfl : g = k := Option.some.inj (hg.symm.trans hk)
    simp [htopic] at ht
  have hpass := hm.passes hfeed
  rcases h feed tick streaming desk hlead (hages.halted ▸ hh) hd hup with
    (hold | hexit) | hasks | hanswers
  · exact .inl (.inl (hpass.holds hold))
  · exact .inl (.inr (hm.mem_exits hexit))
  · exact .inr (.inl hasks)
  · by_cases ha : site.hub.addon? key.objectName = s.site.hub.addon? key.objectName
    · by_cases hexit : key.text ∈ site.exits
      · exact .inl (.inr hexit)
      · refine .inr (.inr (hanswers.keeps ha fun j a hl hk => ?_))
        by_cases hj : i = j
        · subst hj
          exact (hm.live_self hc hb hreports hl).resolve_right (hk ▸ hexit)
        · exact hm.live_of_ne hj hl
    · obtain ⟨k, more, hk, -, -, hq, -, htells⟩ := hpass.feed hg
      obtain ⟨present, hp⟩ := htells htopic hclosed key.objectName ha
      exact .inl (.inl ⟨k, hk, present, hq ▸ List.mem_append_right _ hp⟩)

theorem Minds.desk {site : Site} {i : Nat} {desk desk' : Desk} (h : s.Minds key)
    (ho : s.Orderly) (hf : s.Faithful) (hman : s.IsManned) (hk : key.IsWellFormed)
    (hd : s.desks[i]? = some desk) (hm : desk.Moves s.isSealed s.site site desk') :
    ({ s with site := site, desks := s.desks.set i desk' } : Supervision).Minds key := by
  intro feed tick streaming found hlead hh hfound hup
  have hhalt := hm.grows.halted hh
  have hseal := isSealed_of_leading hlead
  have hown := ho.desks i desk hd
  rw [partition_set_desk] at hfound
  rcases getElem?_set_desk hd hfound with ⟨hi, rfl⟩ | ⟨hi, hold⟩
  · rcases h feed tick streaming desk hlead hhalt (hi ▸ hd) (Bool.eq_false_iff.mpr hm.not_down) with
      (hheld | hexit) | hrest
    · exact .inl (.inl ((hm.passes feed).holds hheld))
    · exact .inl (.inr (hm.exits ▸ hexit))
    · have hopen := hman.opens hseal hhalt desk (List.mem_of_getElem? hd)
      exact .inr (hm.answers hown hhalt hseal hopen hk hup
        (fun _ _ hg hc => hown.live_of_isCurrent (fun _ _ => hf.assignments) hg hc) hrest)
  · rcases h feed tick streaming found hlead hhalt hold hup with (hheld | hexit) | hasks | hanswers
    · exact .inl (.inl ((hm.passes feed).holds hheld))
    · exact .inl (.inr (hm.exits ▸ hexit))
    · exact .inr (.inl hasks)
    · refine .inr (.inr (hanswers.keeps (hm.addon? _) ?_))
      refine hm.spares hown hhalt hseal (hman.opens hseal hhalt desk (List.mem_of_getElem? hd))
        fun work rest hphase => hi ?_
      exact hown.texts key.text (by simp [hphase, DeskPhase.texts])

/-- With the addon stream just opened, it holds a sighting of the addon, or no watcher is wanted and
none is there. -/
theorem begin_minds {feed : Nat} (hfeed : feed = s.site.hub.feeds.length)
    (hhub : s.begin.site.hub = s.site.hub.openAddons.1)
    {desk : Desk} (hd : desk ∈ s.begin.desks) :
    s.begin.site.hub.Holds feed key.objectName ∨ desk.Answers s.begin.site key := by
  obtain ⟨hub, trace, lead, he, -⟩ := Orderly.begin_eq s
  cases ha : s.site.hub.addon? key.objectName with
  | some addon =>
    left
    rw [hhub, hfeed]
    exact Hub.holds_openAddons ha
  | none =>
    have hnone : s.begin.site.hub.wanted key = none := by
      have hsame : s.begin.site.hub.wanted key = s.site.hub.wanted key := by
        rw [hhub]
        rfl
      rw [hsame]
      simp [Hub.wanted, ha]
    rw [he] at hd
    obtain rfl := List.eq_of_mem_replicate hd
    refine .inr (.inr ⟨by simp, .inr ?_⟩)
    unfold Site.Agrees
    rw [hnone]
    rfl

theorem Minds.lead (h : s.Minds key) (hman : s.IsManned) (hm : s.LeadMoves next)
    (hname : s.names.contains key.name = true) : next.Minds key := by
  intro feed tick streaming desk hlead hh hd hup
  rcases hm.leading hlead with ⟨streaming', tick', hold⟩ | ⟨-, rfl, hfeed, hhub⟩
  · obtain ⟨hub, trace, exits, he, -⟩ := hm.shared
    have hhalt : s.site.halted = false := by
      rw [he] at hh
      exact hh
    obtain ⟨more, hs, hhands⟩ := hm.hands hold hlead hname
    rw [hs.partition_eq, hs.desks] at hd
    obtain ⟨old, ho, rfl⟩ := Option.map_eq_some_iff.mp hd
    have hopen := hman.opens (isSealed_of_leading hold) hhalt old (List.mem_of_getElem? ho)
    have hkept : old.Asks key.text → ({ old with
        inbox := old.inbox ++ more (s.partition key.text) } : Desk).Asks key.text :=
      fun hasks => hasks.imp_left (List.mem_append_left _)
    rcases h feed tick' streaming' old hold hhalt ho hup with hpending | hasks | hanswers
    · rcases hhands old ho (Desk.isOver_eq_false hopen hup) hpending with hpending | hsent
      · exact .inl hpending
      · exact .inr (.inl (.inl (List.mem_append_right _ hsent)))
    · exact .inr (.inl (hkept hasks))
    · refine .inr (.inr (hanswers.keeps (Hub.addon?_congr _ hm.addons) fun i a hl _ => ?_))
      rw [he]
      exact hl
  · exact (begin_minds hfeed hhub (List.mem_of_getElem? hd)).elim (fun hh => .inl (.inl hh))
      fun ha => .inr (.inr ha)

theorem Minds.hub {hub : Hub} (h : s.Minds key) (hch : s.Channels) (ht : s.site.hub.Tells hub) :
    ({ s with site := { s.site with hub := hub } } : Supervision).Minds key := by
  intro feed tick streaming desk hlead hh hd hup
  obtain ⟨f, hf, htopic, -⟩ := hch.lead feed streaming tick hlead
  obtain ⟨g, more, hg, -, -, hq, htells⟩ := ht.addons feed f hf htopic
  rcases h feed tick streaming desk hlead hh hd hup with (hold | hexit) | hasks | hanswers
  · obtain ⟨k, hk, present, hp⟩ := hold
    obtain rfl : f = k := Option.some.inj (hf.symm.trans hk)
    exact .inl (.inl ⟨g, hg, present, hq ▸ List.mem_append_left _ hp⟩)
  · exact .inl (.inr hexit)
  · exact .inr (.inl hasks)
  · by_cases ha : hub.addon? key.objectName = s.site.hub.addon? key.objectName
    · exact .inr (.inr (hanswers.keeps ha fun i a hl _ => hl))
    · obtain ⟨present, hp⟩ := htells key.objectName ha
      exact .inl (.inl ⟨g, hg, present, hq ▸ List.mem_append_right _ hp⟩)

/-- Whatever happens, no key of a recognised addon is lost sight of. -/
theorem Reached.minds (h : s.Reached .telling) (hk : key.IsWellFormed) :
    s.names.contains key.name = true → s.Minds key := by
  induction h using Reached.induct with
  | start s hf ha =>
    intro _ feed tick streaming desk hlead
    simp [hf.lead] at hlead
  | child s site i child f hr hr' hc hrun hb hm ih =>
    intro hn
    exact (ih hn).child hr.channels hr.orderly.reports hc hb hm
  | desk s site i desk desk' hr hr' hd hm ih =>
    intro hn
    exact (ih hn).desk hr.orderly hr.faithful hr.isManned hk hd hm
  | lead s next hr hr' hm ih =>
    intro hn
    have hnames : s.names.contains key.name = true := hm.names ▸ hn
    exact (ih hnames).lead hr.isManned hm hnames
  | hub s hub hr hr' ha ih =>
    intro hn
    exact (ih hn).hub hr.channels ha.1
  | time s moment hr hr' ht ih =>
    intro hn feed tick streaming desk hlead hh hd hup
    refine (ih hn feed tick streaming desk hlead hh hd hup).imp_right fun hrest => ?_
    exact hrest.imp_right fun ha => ha.keeps rfl fun i a hl _ => hl
  | halt s hr hr' ih =>
    intro _ feed tick streaming desk _ hh
    simp at hh

/-- Something is still to be done for the key: a sighting of it waits or its watcher is reported, or
the desk that it belongs to has it in its inbox, is at it or has set an alarm for it. -/
def Pends (s : Supervision) (key : AddonKey) : Prop :=
  (∃ feed streaming tick, s.lead = .leading feed streaming tick ∧
    s.site.hub.Holds feed key.objectName) ∨ key.text ∈ s.site.exits ∨
  ∃ desk : Desk, s.desks[s.partition key.text]? = some desk ∧ (.sync key.text ∈ desk.inbox ∨
    (∃ work rest, desk.phase = .reconciling key.text work rest) ∨ desk.Awaits key.text)

/-- A desk that has not broken down takes up the next key by itself. -/
theorem IsAtRest.not_working (h : s.IsAtRest) {i : Nat} {desk : Desk} (hd : s.desks[i]? = some desk)
    {text : String} {rest : List String} : desk.phase ≠ .working (text :: rest) := by
  intro hphase
  cases hstep : desk.step s.isSealed s.site with
  | none =>
    simp only [Desk.step, hphase] at hstep
    split at hstep <;> cases hstep
  | some next =>
    have hnone := h (.desk i)
    simp [step, stepDesk, hd, hstep] at hnone

/-- With nothing pending and no task able to go on, a desk that has not broken down has brought the
watcher of the key into line. -/
theorem Minds.agrees {feed : Nat} {tick : Span} {streaming : Bool} {desk : Desk} (h : s.Minds key)
    (hlead : s.lead = .leading feed streaming tick) (hh : s.site.halted = false)
    (hrest : s.IsAtRest) (hp : ¬s.Pends key) (hd : s.desks[s.partition key.text]? = some desk)
    (hup : desk.isDown = false) : s.site.Agrees desk.roster key := by
  rcases h feed tick streaming desk hlead hh hd hup with
    (hheld | hexit) | (hin | ⟨rest, hphase⟩) | ⟨work, rest, hphase, -⟩ | ⟨-, hwait | hagree⟩
  · exact absurd (.inl ⟨feed, streaming, tick, hlead, hheld⟩) hp
  · exact absurd (.inr (.inl hexit)) hp
  · exact absurd (.inr (.inr ⟨desk, hd, .inl hin⟩)) hp
  · exact absurd hphase (hrest.not_working hd)
  · exact absurd (.inr (.inr ⟨desk, hd, .inr (.inl ⟨work, rest, hphase⟩)⟩)) hp
  · exact absurd (.inr (.inr ⟨desk, hd, .inr (.inr hwait)⟩)) hp
  · exact hagree

theorem IsManned.desk (h : s.IsManned) (hlead : s.isSealed = false) (text : String) :
    ∃ desk, s.desks[s.partition text]? = some desk :=
  ⟨_, List.getElem?_eq_getElem (Nat.mod_lt _ (h.desks hlead))⟩

/-- With work being handed out, the scope not cancelled, no task able to go on and nothing pending
for an addon that is recognised, the desk of its key is down, or has the watcher registered that the
stored addon wants, which lives, and none if it wants none. -/
theorem converged_at_rest {w : Surroundings} (h : s.Reached (.both .telling w))
    (hh : s.site.halted = false) (hlead : s.isSealed = false) (hrest : s.IsAtRest)
    (hk : key.IsWellFormed) (hname : s.names.contains key.name = true) (hp : ¬s.Pends key) :
    s.IsDown (.both .telling w) (s.partition key.text) ∨
      ∃ desk : Desk, s.desks[s.partition key.text]? = some desk ∧
        s.site.Agrees desk.roster key := by
  obtain ⟨feed, streaming, tick, hl⟩ := leading_of_isSealed hlead
  obtain ⟨desk, hd⟩ := h.left.isManned.desk hlead key.text
  cases hup : desk.isDown with
  | true => exact .inl (h.isDown hd hup)
  | false => exact .inr ⟨desk, hd, (h.left.minds hk hname).agrees hl hh hrest hp hd hup⟩

/-- Rest as far as it can be computed: no task that there is can go on. -/
theorem isAtRest_of_tasks (h : (s.tasks.all fun t => (s.step t).isNone) = true) : s.IsAtRest := by
  intro t
  by_cases ht : t ∈ s.tasks
  · simpa using List.all_eq_true.mp h t ht
  · cases t with
    | child i =>
      have hi : s.site.children[i]? = none := by simpa [tasks] using ht
      simp [step, stepChild, Site.stepChild, hi]
    | desk i =>
      have hi : s.desks[i]? = none := by simpa [tasks] using ht
      simp [step, stepDesk, hi]
    | lead => simp [tasks] at ht

/-- Nothing is pending, as far as it can be computed. -/
def isQuiet (s : Supervision) : Bool :=
  s.site.hub.feeds.all (fun f => f.queue.isEmpty) && s.site.exits.isEmpty &&
    s.desks.all fun desk => desk.inbox.isEmpty && desk.alarms.entries.isEmpty &&
      match desk.phase with
      | .reconciling .. => false
      | _ => true

theorem not_pends_of_isQuiet (h : s.isQuiet = true) (key : AddonKey) : ¬s.Pends key := by
  simp only [isQuiet, Bool.and_eq_true, List.all_eq_true, List.isEmpty_iff] at h
  obtain ⟨⟨hfeeds, hexits⟩, hdesks⟩ := h
  rintro (⟨feed, streaming, tick, -, f, hf, present, hm⟩ | hexit | ⟨desk, hd, hrest⟩)
  · rw [hfeeds f (List.mem_of_getElem? hf)] at hm
    simp at hm
  · rw [hexits] at hexit
    simp at hexit
  · obtain ⟨⟨hinbox, halarms⟩, hphase⟩ := hdesks desk (List.mem_of_getElem? hd)
    rcases hrest with hin | ⟨work, rest, he⟩ | ⟨id, hid⟩
    · rw [hinbox] at hin
      simp at hin
    · rw [he] at hphase
      simp at hphase
    · rw [halarms] at hid
      simp at hid

/-- The supervision stands, recognises that name and has nothing left to do. -/
def isIdle (s : Supervision) (name : String) : Bool :=
  !s.site.halted && !s.isSealed && (s.tasks.all fun t => (s.step t).isNone) &&
    s.names.contains name && s.isQuiet

theorem of_isIdle {name : String} (h : s.isIdle name = true) :
    s.site.halted = false ∧ s.isSealed = false ∧ s.IsAtRest ∧ s.names.contains name = true ∧
      ∀ key, ¬s.Pends key := by
  simp only [isIdle, Bool.and_eq_true, Bool.not_eq_true'] at h
  obtain ⟨⟨⟨⟨hh, hlead⟩, hrest⟩, hname⟩, hquiet⟩ := h
  exact ⟨hh, hlead, isAtRest_of_tasks hrest, hname, not_pends_of_isQuiet hquiet⟩

/-- The addons are seen and the first one's watcher is brought up, writes and is at rest; the desk
looks at the addon that was seen last. -/
def settling : List Task :=
  List.replicate 3 .lead ++ List.replicate 4 (.desk 0) ++ List.replicate 4 (.child 0) ++
    [.desk 0, .lead, .lead] ++ List.replicate 4 (.desk 0)

theorem slashFree_overreaching : overreaching.site.hub.IsSlashFree := by
  intro addon ha reference hr
  simp only [overreaching, List.mem_cons, List.not_mem_nil, or_false] at ha
  rcases ha with rfl | rfl <;> cases hr <;> decide

/-- With only the first addon recognised its watcher is registered at rest. -/
theorem converged_at_rest_first : ∃ s : Supervision, s.Reached (.both .telling .calm) ∧
    s.IsAtRest ∧ ∃ desk ∈ s.desks, s.site.hub.wanted ⟨"ns", "a"⟩ ≠ none ∧
      s.site.Agrees desk.roster ⟨"ns", "a"⟩ := by
  have hstart : sparing.Reached (.both .telling .calm) :=
    .start _ ⟨rfl, rfl, rfl, rfl, rfl, rfl⟩ ⟨slashFree_overreaching, overreaching_calm⟩
  obtain ⟨s, hs, hp⟩ := exists_of_play settling hstart
    (p := fun s => s.isIdle "a" && (s.site.hub.wanted ⟨"ns", "a"⟩).isSome &&
      s.desks.all fun desk => !desk.isOver)
    (by decide +kernel)
  simp only [Bool.and_eq_true] at hp
  obtain ⟨⟨hidle, hwanted⟩, hup⟩ := hp
  obtain ⟨hh, hlead, hrest, hname, hquiet⟩ := of_isIdle hidle
  obtain ⟨desk, hd, hagree⟩ := (converged_at_rest hs hh hlead hrest
    (show AddonKey.IsWellFormed ⟨"ns", "a"⟩ by decide) hname (hquiet _)).resolve_left
      (not_isDown hup _)
  exact ⟨s, hs, hrest, desk, List.mem_of_getElem? hd, fun hnone => by simp [hnone] at hwanted,
    hagree⟩

/-- Although everything is told and nobody that is called has broken down, at rest no watcher is
registered for the first addon, which wants one: the desk had to set an alarm for the second too far
ahead. -/
theorem unconverged_at_rest : ∃ s mid : Supervision, s.Reached (.both .telling .calm) ∧
    s.site.halted = false ∧ s.isSealed = false ∧ s.IsAtRest ∧
    s.names.contains "a" = true ∧ ¬s.Pends ⟨"ns", "a"⟩ ∧ s.site.hub.wanted ⟨"ns", "a"⟩ ≠ none ∧
    (∀ desk ∈ s.desks, desk.roster.get? ⟨"ns", "a"⟩ = none) ∧
    mid.Later (.both .telling .calm) s ∧
    ∃ desk, mid.desks[0]? = some desk ∧ desk.IsOverreaching mid.site := by
  have hstart : overreaching.Reached (.both .telling .calm) :=
    .start _ ⟨rfl, rfl, rfl, rfl, rfl, rfl⟩ ⟨slashFree_overreaching, overreaching_calm⟩
  obtain ⟨s, hs, hp⟩ := exists_of_play settling hstart
    (p := fun s => s.isIdle "a" && (s.site.hub.wanted ⟨"ns", "a"⟩).isSome && s.isDown 0 &&
      s.desks.all fun desk => desk.roster.get? ⟨"ns", "a"⟩ = none)
    (by decide +kernel)
  simp only [Bool.and_eq_true] at hp
  obtain ⟨⟨⟨hidle, hwanted⟩, hdown⟩, hnone⟩ := hp
  obtain ⟨hh, hlead, hrest, hname, hquiet⟩ := of_isIdle hidle
  obtain ⟨mid, desk, -, hl, hd, ho⟩ :=
    (isDown_of_computed hs hdown).overreached Surroundings.isCalm_calm.both
  refine ⟨s, mid, hs, hh, hlead, hrest, hname, hquiet _, fun he => by simp [he] at hwanted,
    fun desk hd => ?_, hl, desk, hd, ho⟩
  simpa using List.all_eq_true.mp hnone desk hd

end Supervision

end AddonWatch

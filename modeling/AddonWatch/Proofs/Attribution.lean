import AddonWatch.Proofs.Convergence
import AddonWatch.Proofs.Marks

namespace AddonWatch

/-- What interrupts a stream of signals. -/
def Signal.fault? : Signal → Option Fault
  | .ok _ => none
  | .error fault => some fault

theorem fault?_onlyNamed (names : List String) (signals : List Signal) :
    (onlyNamed names signals).filterMap Signal.fault? = signals.filterMap Signal.fault? := by
  unfold onlyNamed
  rw [List.filterMap_filter]
  apply List.filterMap_congr
  intro signal _
  cases signal with
  | ok sighting => simp [Signal.fault?]
  | error fault => simp [Signal.passes]

namespace Supervision

variable {w : Surroundings} {s next : Supervision}

theorem Moves.names (hm : s.Moves w next) : next.names = s.names := by
  cases hm with
  | task t _ hs =>
    cases t with
    | child i =>
      obtain ⟨site, -, rfl⟩ := stepChild_cases hs
      rfl
    | desk i =>
      obtain ⟨desk, desk', site, -, -, rfl⟩ := stepDesk_cases hs
      rfl
    | lead => exact (stepLead_moves hs).names
  | _ => rfl

theorem Reached.selective (h : s.Reached w) (hn : ∀ name ∈ s.names, '/' ∉ name.toList) :
    s.Selective := by
  induction h with
  | start s hf => exact .of_isFresh hn hf
  | next s s' hr hm ih => exact (ih (hm.names ▸ hn)).moves hr.orderly hm

/-- The addon that a replacement goes by was stored under its key, now or at an earlier point of the
run. -/
def Recalls (w : Surroundings) (s : Supervision) (desk : Desk) : Prop :=
  ∀ text key addon reference settling rest,
    desk.phase = .reconciling text (.replacing key addon reference settling) rest →
      ∃ past : Supervision, past.Reached w ∧ past.Later w s ∧
        past.site.hub.wanted key = some reference

theorem Recalls.later {desk other : Desk} (h : Recalls w s desk) (hp : other.phase = desk.phase)
    (hm : s.Moves w next) : Recalls w next other := by
  intro text key addon reference settling rest hphase
  obtain ⟨past, hpast, hl, hw⟩ := h text key addon reference settling rest (hp ▸ hphase)
  exact ⟨past, hpast, .next _ _ hl hm, hw⟩

theorem recalls_of_moves {desk desk' : Desk} {site : Site} (hr : s.Reached w)
    (hdesk : desk.Moves s.isSealed s.site site desk') (hm : s.Moves w next) :
    Recalls w next desk' := by
  intro text key addon reference settling rest hphase
  cases hdesk with
  | goesOn text' work work' rest' _ roster hp hh hmoves =>
    cases hphase
    cases hmoves with
    | replaces _ _ _ _ handle trace hparse ha hd =>
      exact ⟨s, hr, .next _ _ .refl hm, by simp [Hub.wanted, ha, hd]⟩
  | concludes text' work rest' _ _ roster verdict _ hp hh hmoves hc =>
    rcases hc.phase with hsame | ⟨message, hcrashed⟩
    · rw [hsame] at hphase
      cases hphase
    · rw [hcrashed] at hphase
      cases hphase
  | turns alarms hidle =>
    rw [show desk.phase = _ from hphase] at hidle
    cases hidle
  | wakes => simp [Desk.wake] at hphase
  | _ => cases hphase

theorem Reached.recalls (h : s.Reached w) : ∀ desk ∈ s.desks, Recalls w s desk := by
  induction h with
  | start s hf => simp [hf.desks]
  | next s s' hr hm ih =>
    have hkeep : ∀ desk ∈ s.desks, Recalls w s' desk := fun desk hd => (ih desk hd).later rfl hm
    have hm' := hm
    cases hm' with
    | task t _ hs =>
      cases t with
      | child i =>
        obtain ⟨site, -, rfl⟩ := stepChild_cases hs
        exact hkeep
      | desk i =>
        obtain ⟨desk, desk', site, hd, hdesk, rfl⟩ := stepDesk_cases hs
        intro other ho
        rcases List.mem_or_eq_of_mem_set ho with hold | rfl
        · exact hkeep other hold
        · exact recalls_of_moves hr hdesk hm
      | lead =>
        exact (stepLead_moves hs).forall_desks (fun _ _ _ _ _ _ _ _ hp => by cases hp)
          (fun _ _ hd => hd) hkeep
    | hub hub ha => exact hkeep
    | time moment ht => exact hkeep
    | halt => exact hkeep

/-- The next step of that task leaves the mark for the addon of that key: a desk that reconciles the
key asks for the object that its stored addon pointed at, or tells of the key; or a watcher of the
key writes the addon of that name. -/
inductive Makes (w : Surroundings) (s : Supervision) : Task → AddonKey → Mark → Prop
  | opens (i : Nat) (desk : Desk) (key : AddonKey) (reference : Reference) (past : Supervision)
      (hd : s.desks[i]? = some desk) (hat : desk.IsAt key) (hp : past.Reached w)
      (hl : past.Later w s) (hw : past.site.hub.wanted key = some reference) :
      Makes w s (.desk i) key (.opened reference.target s.site.now)
  | tells (i : Nat) (desk : Desk) (key : AddonKey) (notice : Notice) (note : String)
      (hd : s.desks[i]? = some desk) (hat : desk.IsAt key) :
      Makes w s (.desk i) key (.noted notice key note s.site.now)
  | writes (i : Nat) (f : Follower) (addon : Addon) (hb : s.site.bodies[i]? = some (.guarded f))
      (ho : addon.objectName = f.assignment.key.objectName) :
      Makes w s (.child i) f.assignment.key (.wrote (some i) addon s.site.now)

/-- Whatever a task leaves a mark of it does for some addon. -/
theorem Reached.makes (h : s.Reached w) {t : Task} (hs : s.step t = some next) :
    s.site.Leaves (fun mark => ∃ key, s.Makes w t key mark) next.site := by
  have ho := h.orderly
  cases t with
  | child i =>
    obtain ⟨site, hstep, rfl⟩ := stepChild_cases hs
    obtain ⟨child, hc, -⟩ := Site.stepChild_moves hstep
    obtain ⟨f, hb⟩ := ho.staffed.guarded hc
    have hbody := Site.getElem?_bodies.mpr ⟨child, hc, hb⟩
    refine (Site.stepChild_leaves hc hb hstep).mono fun mark hmark => ?_
    obtain ⟨write, hphase, rfl⟩ := hmark
    exact ⟨_, .writes i f write.addon hbody ((h.drafted hbody).objectName hphase)⟩
  | desk i =>
    obtain ⟨desk, desk', site, hd, hstep, rfl⟩ := step_of_stepDesk hs
    refine (Desk.step_leaves hstep).mono fun mark hmark => ?_
    obtain ⟨text, work, rest, hphase, hmark⟩ := hmark
    have hfit := (ho.desks i desk hd).work text work rest hphase
    have hat : ∀ {key : AddonKey}, AddonKey.parse text = .ok key → desk.IsAt key :=
      fun hp => ⟨text, work, rest, hphase, hp⟩
    have hopen : ∀ {key : AddonKey}, key.IsWellFormed ∧ text = key.text → desk.IsAt key :=
      fun hk => hat (AddonKey.parse_eq_ok_iff.mpr hk.symm)
    cases hmark with
    | asks _ key reference hp hw =>
      obtain rfl : _ = text := hfit
      exact ⟨key, .opens i desk key reference s hd (hat hp) h .refl hw⟩
    | asksNext key addon reference settling =>
      obtain ⟨past, hpast, hl, hw⟩ :=
        h.recalls desk (List.mem_of_getElem? hd) text key addon reference settling rest hphase
      exact ⟨key, .opens i desk key reference past hd (hopen ⟨hfit.1, hfit.2.1⟩) hpast hl hw⟩
    | tells _ key notice note hp =>
      obtain rfl : _ = text := hfit
      exact ⟨key, .tells i desk key notice note hd (hat hp)⟩
    | tellsBuilt key attempt note =>
      exact ⟨key, .tells i desk key .started note hd (hopen ⟨hfit.1, hfit.2.1⟩)⟩
  | lead => exact (stepLead_moves hs).leaves

/-- The addon that a task is at work for is a recognised one. -/
theorem Makes.recognised {t : Task} {key : AddonKey} {mark : Mark} (h : s.Makes w t key mark)
    (hsel : s.Selective) : key.IsRecognised s.names := by
  have hdesk : ∀ {i : Nat} {desk : Desk}, s.desks[i]? = some desk → desk.IsAt key →
      key.IsRecognised s.names := by
    rintro i desk hd ⟨text, work, rest, hphase, hp⟩
    obtain ⟨horderly, -⟩ := hsel.desks desk (List.mem_of_getElem? hd)
    have htext := horderly.texts text (by simp [hphase, DeskPhase.texts])
    exact (htext.recognised hp).1
  cases h with
  | opens i desk _ _ _ hd hat => exact hdesk hd hat
  | tells i desk _ _ _ hd hat => exact hdesk hd hat
  | writes i f _ hb => exact hsel.children i f hb

/-- On the way to `s` a task at work for the addon of that key left the mark on top of the earlier
ones. -/
def LeftFor (w : Surroundings) (s : Supervision) (key : AddonKey) (mark : Mark)
    (earlier : List Mark) : Prop :=
  ∃ (mid next : Supervision) (t : Task) (newer older : List Mark), mid.Reached w ∧
    mid.step t = some next ∧ next.Later w s ∧ earlier = older ++ mid.site.trace ∧
    next.site.trace = newer ++ mark :: earlier ∧ mid.Makes w t key mark

theorem LeftFor.later {key : AddonKey} {mark : Mark} {earlier : List Mark}
    (h : s.LeftFor w key mark earlier) (hm : s.Moves w next) :
    next.LeftFor w key mark earlier := by
  obtain ⟨mid, after, t, newer, older, hr, hs, hl, hrest⟩ := h
  exact ⟨mid, after, t, newer, older, hr, hs, .next _ _ hl hm, hrest⟩

/-- Every mark is a remark, or was left for a recognised addon. -/
theorem Reached.left_for (h : s.Reached w) (hn : ∀ name ∈ s.names, '/' ∉ name.toList)
    {later earlier : List Mark} {mark : Mark} (ht : s.site.trace = later ++ mark :: earlier) :
    (∃ level text, mark = .logged level text) ∨
      ∃ key, key.IsRecognised s.names ∧ s.LeftFor w key mark earlier := by
  induction h generalizing later with
  | start s hf =>
    rw [hf.trace] at ht
    simp at ht
  | next s s' hr hm ih =>
    have hnames := hm.names
    have hkeep : ∀ {later}, s.site.trace = later ++ mark :: earlier →
        (∃ level text, mark = .logged level text) ∨
          ∃ key, key.IsRecognised s'.names ∧ s'.LeftFor w key mark earlier := by
      intro later ht
      refine (ih (hnames ▸ hn) ht).imp_right fun hleft => ?_
      obtain ⟨key, hk, hleft⟩ := hleft
      exact ⟨key, hnames ▸ hk, hleft.later hm⟩
    have hm' := hm
    cases hm' with
    | task t _ hs =>
      obtain ⟨marks, he, hmarks⟩ := hr.makes hs
      rw [he] at ht
      rcases List.append_eq_append_iff.mp ht with ⟨more, -, hold⟩ | ⟨own, rfl, hown⟩
      · exact hkeep hold
      · cases own with
        | nil =>
          have hnone : s.site.trace = [] ++ mark :: earlier := hown.symm
          exact hkeep hnone
        | cons first older =>
          obtain ⟨rfl, rfl⟩ := List.cons.inj hown
          refine (hmarks mark (by simp)).imp_right fun hmakes => ?_
          obtain ⟨key, hmakes⟩ := hmakes
          have hk := hmakes.recognised (hr.selective (hnames ▸ hn))
          refine ⟨key, hnames ▸ hk, s, s', t, later, older, hr, hs, .refl, rfl, ?_, hmakes⟩
          rw [he]
          simp
    | hub hub ha => exact hkeep ht
    | time moment hle => exact hkeep ht
    | halt => exact hkeep ht

/-- An interruption of the addon stream is taken up with a resync, whatever names are recognised. -/
theorem step_of_interruption {feed : Nat} {tick : Span} {fault : Fault} {hub : Hub}
    (hlead : s.lead = .leading feed true tick) (hh : s.site.halted = false)
    (hexits : s.site.exits = []) (hr : s.site.hub.receive feed = (.signal (.error fault), hub)) :
    ∃ text, s.step .lead = some
      (({ s with site := { s.site with hub := hub } } : Supervision).log .warn text).resync := by
  simp only [step, stepLead, hlead, stepLeading, hh, hexits, stepEvents, hr, Signal.passes,
    Bool.false_eq_true, if_false, if_true]
  exact ⟨_, rfl⟩

/-- As long as no recognised name holds a slash, whatever is stored and seen: all that is registered
and all that is to be tried again is for recognised addons; every child was started, and every
mark of a subscription, a status write or a notice was left, for a recognised addon; and no
interruption of a stream of signals is sifted out. -/
theorem only_recognised_touched (h : s.Reached w) (hn : ∀ name ∈ s.names, '/' ∉ name.toList) :
    (∀ desk ∈ s.desks, (∀ e ∈ desk.roster.entries, e.1.IsRecognised s.names) ∧
      (∀ e ∈ desk.retries, Recognised s.names e.1) ∧
      ∀ e ∈ desk.alarms.entries, Recognised s.names e.2) ∧
    (∀ i < s.site.children.length, ∃ a, s.site.assignment? i = some a ∧
      a.key.IsRecognised s.names) ∧
    (∀ later mark earlier, s.site.trace = later ++ mark :: earlier →
      (∃ level text, mark = .logged level text) ∨
        ∃ key, key.IsRecognised s.names ∧ s.LeftFor w key mark earlier) ∧
    (∀ signals, (onlyNamed s.names signals).filterMap Signal.fault? =
      signals.filterMap Signal.fault?) ∧
    ∀ feed tick fault hub, s.lead = .leading feed true tick → s.site.halted = false →
      s.site.exits = [] → s.site.hub.receive feed = (.signal (.error fault), hub) →
        ∃ text, s.step .lead = some (({ s with site := { s.site with hub := hub } } :
          Supervision).log .warn text).resync := by
  have hsel := h.selective hn
  refine ⟨fun desk hd => ?_, fun i hi => ?_, fun later mark earlier => h.left_for hn,
    fault?_onlyNamed s.names, fun feed tick fault hub => step_of_interruption⟩
  · obtain ⟨-, hputs⟩ := hsel.desks desk hd
    exact ⟨hsel.registered desk hd, hputs.retries, hputs.alarms⟩
  · obtain ⟨a, ha⟩ := h.orderly.staffed i hi
    exact ⟨a, ha, hsel.assigned ha⟩

/-- With two addons stored of which only the first is recognised, the one watcher is for that. -/
theorem only_recognised_touched_first : ∃ (s : Supervision) (a : Assignment), s.Reached .calm ∧
    s.site.hub.addons.length = 2 ∧ s.names = ["a"] ∧ s.site.children.length = 1 ∧
    s.site.assignment? 0 = some a ∧ a.key.IsRecognised ["a"] := by
  obtain ⟨s, hs, hp⟩ := exists_of_play settling sparing_reached
    (p := fun s => s.site.hub.addons.length = 2 && s.names = ["a"] && s.site.children.length = 1)
    (by decide +kernel)
  simp only [Bool.and_eq_true, decide_eq_true_eq] at hp
  obtain ⟨⟨haddons, hnames⟩, hchildren⟩ := hp
  obtain ⟨-, hchild, -⟩ := only_recognised_touched hs (by rw [hnames]; decide)
  obtain ⟨a, ha, hk⟩ := hchild 0 (by omega)
  exact ⟨s, a, hs, haddons, hnames, hchildren, ha, hnames ▸ hk⟩

end Supervision

end AddonWatch

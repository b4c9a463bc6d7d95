import AddonWatch.Proofs.Repair

namespace AddonWatch

namespace Supervision

variable {s start next : Supervision} {aim : AddonKey → Option Fingerprint} {log : List Deed}

theorem HandsOut.listed {old new : Supervision} {more : Nat → List Work}
    (h : old.HandsOut new more) : new.listed = old.listed := by
  unfold Supervision.listed
  rw [h.hub, h.names]

/-- Behind a resync every desk that is not over has been sent the addons of its partition, and then
to look at its own watchers. -/
theorem inbox_of_resync {i : Nat} {desk : Desk} (hd : s.resync.desks[i]? = some desk)
    (hopen : desk.isOver = false) : ∃ older, desk.inbox = older ++
      ((s.resync.listed.filter (s.resync.partition · = i)).map .sync ++ [.resync]) := by
  have hout := s.handsOut_resent
  have hover := hout.isOver i
  rw [hd] at hover
  rw [hout.desks] at hd
  obtain ⟨old, ho, rfl⟩ := Option.map_eq_some_iff.mp hd
  refine ⟨old.inbox, ?_⟩
  simp only [hout.listed, hout.partition]
  unfold resent
  rw [← hover]
  simp [hopen]

theorem Resyncs.inbox (h : s.Resyncs start) {i : Nat} {desk : Desk}
    (hd : start.desks[i]? = some desk) (hopen : desk.isOver = false) : ∃ older, desk.inbox =
      older ++ ((start.listed.filter (start.partition · = i)).map .sync ++ [.resync]) := by
  cases h with
  | interrupted => exact inbox_of_resync hd hopen
  | ticked => exact inbox_of_resync (s := s) hd hopen

theorem Resyncs.leading (h : s.Resyncs start) : ∃ feed streaming tick,
    s.lead = .leading feed streaming tick ∧ s.site.halted = false := by
  cases h with
  | interrupted feed tick _ _ _ hlead hh => exact ⟨feed, true, tick, hlead, hh⟩
  | ticked feed tick streaming hlead hh => exact ⟨feed, streaming, tick, hlead, hh⟩

theorem Resyncs.lasts (h : s.Resyncs start) (hs : s.step .lead = some start) :
    start.Lasts start ∧ start.names = s.names ∧
      ∀ text, start.partition text = s.partition text := by
  have hm := stepLead_moves hs
  obtain ⟨feed, streaming, tick, hl, hh⟩ := h.leading
  obtain ⟨⟨streaming', tick', hl'⟩, more, hsends⟩ := hm.goes_on hl hh
  obtain ⟨hub, trace, exits, he, -⟩ := hm.shared
  have hstands : start.site.halted = false := by
    rw [he]
    exact hh
  exact ⟨⟨isSealed_of_leading hl', hstands, rfl, fun _ => rfl⟩, hm.names, hsends.partition_eq⟩

theorem mem_listed {key : AddonKey} (hk : key.IsRecognised s.names)
    (hp : s.site.hub.pointed key ≠ none) : key.text ∈ s.listed := by
  unfold Hub.pointed Hub.wanted at hp
  cases ha : s.site.hub.addon? key.objectName with
  | none => simp [ha] at hp
  | some addon =>
    have hname := Hub.objectName_of_addon? ha
    have hmem : key.objectName ∈ s.site.hub.addons.map Addon.objectName :=
      hname ▸ List.mem_map_of_mem (List.mem_of_find?_eq_some ha)
    have hkept : s.names.contains key.objectName.name = true := List.contains_iff_mem.mpr hk.name
    exact List.mem_map.mpr ⟨key.objectName, List.mem_filter.mpr ⟨hmem, hkept⟩, rfl⟩

/-- Every key of a recognised addon is to be reconciled by its desk behind a resync, or to be looked
at with the watchers of that. -/
theorem Resyncs.comes (h : s.Resyncs start) (hp : start.Points aim) {key : AddonKey}
    (hk : key.IsRecognised start.names) {desk : Desk}
    (hd : start.desks[start.partition key.text]? = some desk) (hopen : desk.isOver = false) :
    desk.Comes desk.inbox key (aim key) := by
  obtain ⟨older, hi⟩ := h.inbox hd hopen
  rw [hi]
  cases ha : aim key with
  | none => exact .inr (.inr ⟨rfl, by simp⟩)
  | some f =>
    have hlisted := mem_listed hk (by rw [hp key hk, ha]; simp)
    refine .inl (List.mem_append_right _ (List.mem_append_left _ (List.mem_map_of_mem ?_)))
    exact List.mem_filter.mpr ⟨hlisted, by simp⟩

/-- A desk that has broken down stays so. -/
theorem Ensues.crashed (he : start.Ensues aim log s) (hw : start.Weathered)
    (hstart : start.Lasts start) {i : Nat} {first : Desk} (hd : start.desks[i]? = some first)
    (hdown : first.isDown = true) : ∃ desk, s.desks[i]? = some desk ∧ desk.isDown = true := by
  induction he with
  | start => exact ⟨first, hd, hdown⟩
  | task log s next t h hs _ ih =>
    obtain ⟨desk, hdesk, hphase⟩ := ih
    cases t with
    | child j =>
      obtain ⟨site, -, rfl⟩ := stepChild_cases hs
      exact ⟨desk, hdesk, hphase⟩
    | desk j =>
      obtain ⟨old, new, site, hold, hm, rfl⟩ := stepDesk_cases hs
      have hj : j ≠ i := by
        rintro rfl
        cases hold.symm.trans hdesk
        exact hm.not_down hphase
      exact ⟨desk, (List.getElem?_set_ne hj).trans hdesk, hphase⟩
    | lead =>
      have hlasts := h.lasts hw hstart
      obtain ⟨feed, streaming, tick, hl⟩ := leading_of_isSealed hlasts.unsealed
      obtain ⟨-, more, hsends⟩ := (stepLead_moves hs).goes_on hl hlasts.stands
      refine ⟨{ desk with inbox := desk.inbox ++ more i }, ?_, hphase⟩
      rw [hsends.desks, hdesk]
      rfl
  | hub _ _ _ _ _ ih => exact ih
  | time _ _ _ _ _ ih => exact ih
  | misses _ _ _ _ _ ih => exact ih

/-- What a desk that is not down comes to for a recognised key, once it has worked off what it was
sent with a resync and before. -/
theorem Ensues.repaired (he : start.Ensues aim log s) (hr : next.Resyncs start)
    (hw : start.Weathered) (hstart : start.Lasts start)
    (hn : ∀ name ∈ start.names, '/' ∉ name.toList) (hok : AllDone log) {key : AddonKey}
    (hk : key.IsRecognised start.names) {first : Desk}
    (hd : start.desks[start.partition key.text]? = some first) (hup : first.isDown = false)
    (ht : Deed.Through (start.partition key.text) first.inbox.length log) :
    ∃ desk, s.desks[start.partition key.text]? = some desk ∧
      desk.OnCourse log (start.partition key.text) key (aim key) ∧ desk.IsFair key (aim key) := by
  have hopen := hw.isManned.opens hstart.unsealed hstart.stands first (List.mem_of_getElem? hd)
  have hpoints : start.Points aim := he.points_start
  have hc := hr.comes hpoints hk hd (Desk.isOver_eq_false hopen hup)
  obtain ⟨desk, hdesk, -, hrep⟩ := he.repairs hw hstart hn hok hd hup hk hc
  exact ⟨desk, hdesk, hrep.through ht⟩

/-- Wherever a run has come to, even if sightings of addons or reports of watchers were lost or the
addon stream has ended: when the leading task hands out a resync, and then, while the scope stands
and the stored addons of recognised names go on to point where they do, every desk that had not
broken down before works off what its inbox held, and every reconciliation of a text that can be
read succeeds, then every recognised key whose stored addon points at an object has a watcher of
that object registered at its desk that lived when its last reconciliation ended, unless that desk
had broken down before the resync or is at the key just now; and no other key has a watcher
registered anywhere. -/
theorem resync_repairs (h : s.Weathered) (hn : ∀ name ∈ s.names, '/' ∉ name.toList)
    (hs : s.step .lead = some start) (hr : s.Resyncs start) (he : start.Ensues aim log next)
    (hok : AllDone log) (hdone : ∀ (i : Nat) (desk : Desk), start.desks[i]? = some desk →
      desk.isDown = false → Deed.Through i desk.inbox.length log) :
    (∀ key f, key.IsRecognised s.names → aim key = some f →
      (∃ desk, s.desks[s.partition key.text]? = some desk ∧ desk.isDown = true) ∨
      ∃ desk, next.desks[s.partition key.text]? = some desk ∧ (¬desk.IsAt key →
        ∃ handle, desk.roster.get? key = some handle ∧ handle.fingerprint = f ∧
          Deed.latest (s.partition key.text) key.text log = some (some handle))) ∧
    ∀ desk ∈ next.desks, ∀ e ∈ desk.roster.entries,
      e.1.IsRecognised s.names ∧ aim e.1 = some e.2.fingerprint := by
  obtain ⟨hstart, hnames, hpartition⟩ := hr.lasts hs
  have hw : start.Weathered := .next s start h (.task .lead start hs)
  have hfree : ∀ name ∈ start.names, '/' ∉ name.toList := hnames ▸ hn
  have hlasts := he.lasts hw hstart
  have hlater := he.weathered hw
  have hsel := hlater.selective (hlasts.names ▸ hfree)
  refine ⟨fun key f hk ha => ?_, fun desk hd e hmem => ?_⟩
  · obtain ⟨first, hfirst⟩ := hw.isManned.desk hstart.unsealed key.text
    rw [← hpartition]
    cases hup : first.isDown with
    | true =>
      left
      obtain ⟨feed, streaming, tick, hl, hh⟩ := hr.leading
      obtain ⟨-, more, hsends⟩ := (stepLead_moves hs).goes_on hl hh
      rw [hsends.desks] at hfirst
      obtain ⟨old, hold, rfl⟩ := Option.map_eq_some_iff.mp hfirst
      exact ⟨old, hold, hup⟩
    | false =>
      right
      obtain ⟨desk, hdesk, hon, -⟩ := he.repaired hr hw hstart hfree hok (hnames ▸ hk) hfirst hup
        (hdone _ first hfirst hup)
      refine ⟨desk, hdesk, fun hat => ?_⟩
      have hsettled := hon.settled fun work rest hphase => hat ⟨_, work, rest, hphase,
        AddonKey.parse_eq_ok_iff.mpr ⟨rfl, hk.wellFormed⟩⟩
      rw [ha] at hsettled
      exact hsettled
  · have hk : e.1.IsRecognised start.names := hlasts.names ▸ hsel.registered desk hd e hmem
    refine ⟨hnames ▸ hk, ?_⟩
    obtain ⟨j, hj⟩ := List.mem_iff_getElem?.mp hd
    have hown := hlater.orderly.desks j desk hj
    have hpart : start.partition e.1.text = j :=
      (hlasts.partition _).symm.trans (hown.entries e hmem).1
    obtain ⟨first, hfirst⟩ := hw.isManned.desk hstart.unsealed e.1.text
    have hget : desk.roster.get? e.1 = some e.2 := lookup_of_mem hown.nodup hmem
    cases hup : first.isDown with
    | true =>
      obtain ⟨other, hother, hdown⟩ := he.crashed hw hstart hfirst hup
      rw [hpart] at hother
      cases hj.symm.trans hother
      rw [hlater.roster_of_isDown desk hd hdown] at hmem
      simp at hmem
    | false =>
      obtain ⟨other, hother, -, hfair⟩ := he.repaired hr hw hstart hfree hok hk hfirst hup
        (hdone _ first hfirst hup)
      rw [hpart] at hother
      cases hj.symm.trans hother
      exact hfair e.2 hget

/-- It is time for a resync, and nothing else is to be taken up before. -/
def isDue (s : Supervision) : Bool :=
  match s.lead with
  | .leading feed streaming tick =>
    !s.site.halted && s.site.exits.isEmpty && tick.millis ≤ s.site.now &&
      (!streaming || match s.site.hub.receive feed with
        | (.quiet, _) => true
        | _ => false)
  | _ => false

theorem resyncs_of_isDue (h : s.isDue = true) (hs : s.step .lead = some next) : s.Resyncs next := by
  unfold isDue at h
  split at h
  next feed streaming tick hlead =>
    simp only [Bool.and_eq_true, Bool.not_eq_true', List.isEmpty_iff, decide_eq_true_eq,
      Bool.or_eq_true] at h
    obtain ⟨⟨⟨hh, hexits⟩, hdue⟩, hquiet⟩ := h
    have hsilent : ∀ {feed' : Nat} {tick' : Span} {arrival : Hub.Arrival} {hub : Hub},
        s.lead = .leading feed' true tick' → s.site.hub.receive feed' = (arrival, hub) →
          arrival = .quiet := by
      intro feed' tick' arrival hub hl hr
      cases hlead.symm.trans hl
      simp only [Bool.true_eq_false, false_or] at hquiet
      split at hquiet
      next other he =>
        cases he.symm.trans hr
        rfl
      next => cases hquiet
    cases stepLead_moves hs with
    | ticks _ _ _ hl _ hd => exact .ticked _ _ _ hl hh hd
    | stops _ _ _ _ _ hhalted => simp [hh] at hhalted
    | reports _ _ _ _ _ _ _ hsome => simp [hexits] at hsome
    | sees _ _ _ _ hl _ hr => cases hsilent hl hr
    | overlooks _ _ _ _ hl _ hr => cases hsilent hl hr
    | resyncs _ _ _ _ _ hl _ hr => cases hsilent hl hr
    | outlives _ _ _ _ hl _ hr => cases hsilent hl hr
    | asks hl => simp [hlead] at hl
    | waits _ _ _ hl => simp [hlead] at hl
    | begins _ _ hl => simp [hlead] at hl
    | givesUp _ _ _ hl => simp [hlead] at hl
    | breaks _ _ _ hl => simp [hlead] at hl
    | joins hl => simp [hlead] at hl
  next => cases h

/-- An hour has gone by. -/
def late (s : Supervision) : Supervision :=
  { s with site := { s.site with now := 3600000 } }

theorem Reached.late {w : Surroundings} (h : s.Reached w) (hnow : s.site.now ≤ 3600000) :
    s.late.Reached w :=
  .next s _ h (.time 3600000 hnow)

/-- The desk of that number takes so many steps. -/
def workOff (i : Nat) : Nat → List Deed × Supervision → Option (List Deed × Supervision)
  | 0, done => some done
  | steps + 1, (log, s) => (s.step (.desk i)).bind fun next =>
    workOff i steps ((s.deed? (.desk i) next).toList ++ log, next)

theorem Ensues.workOff {i steps : Nat} {log' : List Deed} (h : start.Ensues aim log s)
    (hs : workOff i steps (log, s) = some (log', next)) : start.Ensues aim log' next := by
  induction steps generalizing log s with
  | zero =>
    cases hs
    exact h
  | succ steps ih =>
    obtain ⟨mid, hstep, hrest⟩ := Option.bind_eq_some_iff.mp hs
    refine ih (.task log s mid (.desk i) h hstep ?_) hrest
    obtain ⟨desk, desk', site, -, hm, rfl⟩ := stepDesk_cases hstep
    intro key hk
    have hsame : site.hub.pointed key = s.site.hub.pointed key := by
      unfold Hub.pointed Hub.wanted
      rw [Hub.addon?_congr _ hm.addons]
    exact hsame.trans (h.points key hk)

/-- All that is on the log has succeeded, and the last deed is that the first desk was through with
so many works. -/
def isWorkedOff (count : Nat) (log : List Deed) : Bool :=
  (log.all fun
    | .ended _ _ verdict _ => verdict = .done
    | _ => true) &&
  match log with
  | .rested 0 :: earlier => count ≤ earlier.count (.took 0)
  | _ => false

theorem of_isWorkedOff {count : Nat} (h : isWorkedOff count log = true) :
    AllDone log ∧ Deed.Through 0 count log := by
  obtain ⟨hdone, hlast⟩ := (Bool.and_eq_true ..).mp h
  refine ⟨fun i text verdict kept hm _ => ?_, ?_⟩
  · simpa using List.all_eq_true.mp hdone _ hm
  · split at hlast
    next earlier => exact ⟨[], earlier, rfl, of_decide_eq_true hlast⟩
    next => cases hlast

/-- The watcher of the first addon is registered and live when the desk is through with a resync. -/
theorem resync_repairs_first : ∃ (s start next : Supervision) (log : List Deed), s.Reached .calm ∧
    s.Resyncs start ∧ start.Ensues start.site.hub.pointed log next ∧ ∃ desk ∈ next.desks,
      ∃ handle, desk.roster.get? ⟨"ns", "a"⟩ = some handle ∧
        handle.fingerprint = firstAssignment.fingerprint ∧
        Deed.latest (s.partition "ns/a") "ns/a" log = some (some handle) := by
  obtain ⟨s, hs, hp⟩ := exists_of_play settling sparing_reached
    (p := fun s => s.site.now ≤ 3600000 && s.late.isDue && s.names = ["a"] &&
      (s.desks.all fun desk => !desk.isOver) && (s.late.step .lead).any fun start =>
        start.site.hub.pointed ⟨"ns", "a"⟩ = some firstAssignment.fingerprint &&
        start.desks.length = 1 && (workOff 0 8 ([], start)).any fun done =>
          (start.desks.all fun desk => isWorkedOff desk.inbox.length done.1) &&
          done.2.desks.all Desk.isIdle)
    (by decide +kernel)
  simp only [Bool.and_eq_true, Option.any_eq_true, decide_eq_true_eq] at hp
  obtain ⟨⟨⟨⟨hnow, hdue⟩, hnames⟩, hup⟩, start, hstep, ⟨haim, hone⟩, ⟨log, next⟩, hoff, hworked,
    hidle⟩ := hp
  have hr := resyncs_of_isDue hdue hstep
  have hensues : start.Ensues start.site.hub.pointed log next :=
    Ensues.workOff (.start fun _ _ => rfl) hoff
  obtain ⟨first, hfirst⟩ := List.length_eq_one_iff.mp hone
  obtain ⟨hok, hthrough⟩ := of_isWorkedOff (List.all_eq_true.mp hworked first (by simp [hfirst]))
  have hdone : ∀ (i : Nat) (desk : Desk), start.desks[i]? = some desk → desk.isDown = false →
      Deed.Through i desk.inbox.length log := by
    intro i desk hd _
    rw [hfirst] at hd
    obtain ⟨rfl, rfl⟩ : i = 0 ∧ first = desk := by
      cases i with
      | zero => exact ⟨rfl, by simpa using hd⟩
      | succ i => simp at hd
    exact hthrough
  have hnamed : s.late.names = ["a"] := hnames
  have hlate := hs.late hnow
  obtain ⟨hwatched, -⟩ :=
    resync_repairs hlate.weathered (by rw [hnamed]; decide) hstep hr hensues hok hdone
  rcases hwatched ⟨"ns", "a"⟩ _ ⟨by decide, by rw [hnamed]; decide⟩ haim with
    ⟨desk, hd, hcrashed⟩ | ⟨desk, hd, hkept⟩
  · exact absurd hcrashed (not_down_of_up hup desk (List.mem_of_getElem? hd))
  · obtain ⟨handle, hg, hf, hlatest⟩ := hkept fun ⟨_, _, _, hphase, _⟩ => by
      have hrests := List.all_eq_true.mp hidle desk (List.mem_of_getElem? hd)
      rw [Desk.isIdle, hphase] at hrests
      cases hrests
    exact ⟨s.late, start, next, log, hlate, hr, hensues, desk, List.mem_of_getElem? hd, handle, hg,
      hf, hlatest⟩

/-- Although nobody that is called has broken down, a resync leaves a recognised addon that points
at an object without a watcher registered, and there is no work left: the desk had to set an alarm
too far ahead before. -/
theorem unrepaired_by_resync : ∃ (s start : Supervision) (key : AddonKey), s.Reached .calm ∧
    (∀ name ∈ s.names, '/' ∉ name.toList) ∧ s.step .lead = some start ∧ s.Resyncs start ∧
    start.Ensues start.site.hub.pointed [] start ∧ (∀ desk ∈ start.desks, desk.inbox = []) ∧
    key.IsRecognised s.names ∧ start.site.hub.pointed key ≠ none ∧
    (∀ desk ∈ start.desks, ¬desk.IsAt key ∧ desk.roster.get? key = none) ∧
    ∃ (mid : Supervision) (desk : Desk), mid.Later .calm s ∧ mid.desks[0]? = some desk ∧
      desk.IsOverreaching mid.site := by
  obtain ⟨s, hs, hp⟩ := exists_of_play (opening 9) overreaching_reached
    (p := fun s => s.site.now ≤ 3600000 && s.late.isDue && s.names = ["a", "b"] &&
      s.late.isDown 0 && (s.late.step .lead).any fun start =>
        (start.site.hub.pointed ⟨"ns", "a"⟩).isSome && start.isDown 0 &&
        start.desks.length = 1 && start.desks.all fun desk =>
          desk.inbox.isEmpty && desk.roster.get? ⟨"ns", "a"⟩ = none)
    (by decide +kernel)
  simp only [Bool.and_eq_true, Option.any_eq_true, List.all_eq_true, List.isEmpty_iff,
    decide_eq_true_eq] at hp
  obtain ⟨⟨⟨⟨hnow, hdue⟩, hnames⟩, hdown⟩, start, hstep, ⟨⟨haim, hstill⟩, hone⟩, hnone⟩ := hp
  have hlate := hs.late hnow
  have hnamed : s.late.names = ["a", "b"] := hnames
  obtain ⟨mid, desk, -, hl, hd, ho⟩ :=
    (isDown_of_computed hlate hdown).overreached Surroundings.isCalm_calm
  have hafter : start.Reached .calm := .next _ _ hlate (.task .lead start hstep)
  obtain ⟨⟨first, hfirst, hcrashed⟩, -⟩ := isDown_of_computed hafter hstill
  refine ⟨s.late, start, ⟨"ns", "a"⟩, hlate, by rw [hnamed]; decide, hstep,
    resyncs_of_isDue hdue hstep, .start fun _ _ => rfl, fun d hd => (hnone d hd).1,
    ⟨by decide, by rw [hnamed]; decide⟩, fun he => by simp [he] at haim,
    fun d hd => ⟨fun hat => ?_, (hnone d hd).2⟩, mid, desk, hl, hd, ho⟩
  obtain ⟨other, hother⟩ := List.length_eq_one_iff.mp hone
  obtain ⟨_, _, _, hphase, -⟩ := hat
  rw [hother] at hd hfirst
  obtain rfl : d = other := List.mem_singleton.mp hd
  obtain rfl : d = first := by simpa using hfirst
  simp [Desk.isDown, hphase] at hcrashed

end Supervision

end AddonWatch

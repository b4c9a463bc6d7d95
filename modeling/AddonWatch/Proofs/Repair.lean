import AddonWatch.Proofs.Deeds

namespace AddonWatch

namespace Desk

/-- What is known of a desk and a key while the desk works off what its inbox held once: the key is
still to be reconciled, or the desk is on course; and when all of that has been worked off, the desk
is on course. -/
structure Repairs (desk : Desk) (held : List Work) (log : List Deed) (i : Nat) (key : AddonKey)
    (aim : Option Fingerprint) : Prop where
  inbox : ∃ newer, desk.inbox = held.drop (log.count (.took i)) ++ newer
  course : desk.Comes (held.drop (log.count (.took i))) key aim ∨ desk.OnCourse log i key aim
  through : Deed.Through i held.length log → desk.OnCourse log i key aim ∧ desk.IsFair key aim

namespace Repairs

variable {desk desk' : Desk} {held : List Work} {log : List Deed} {i : Nat} {key : AddonKey}
  {aim : Option Fingerprint} {site site' : Site} {mine : String → Prop}

theorem start (h : desk.Comes desk.inbox key aim) : desk.Repairs desk.inbox [] i key aim where
  inbox := ⟨[], by simp⟩
  course := .inl h
  through := by
    rintro ⟨later, earlier, he, -⟩
    simp at he

theorem hears (h : desk.Repairs held log i key aim) (more : List Work) :
    { desk with inbox := desk.inbox ++ more }.Repairs held log i key aim := by
  obtain ⟨newer, hi⟩ := h.inbox
  exact ⟨⟨newer ++ more, by rw [hi, List.append_assoc]⟩, h.course.imp id fun hc =>
    ⟨hc.aims, hc.settled⟩, fun ht => ⟨⟨(h.through ht).1.aims, (h.through ht).1.settled⟩,
      (h.through ht).2⟩⟩

/-- What another desk does makes no difference. -/
theorem elsewhere {deed : Deed} (h : desk.Repairs held log i key aim) (hi : deed.desk ≠ i) :
    desk.Repairs held (deed :: log) i key aim := by
  have hcount : (deed :: log).count (.took i) = log.count (.took i) := by
    refine List.count_cons_of_ne ?_
    rintro rfl
    exact hi rfl
  have hlatest : Deed.latest i key.text (deed :: log) = Deed.latest i key.text log := by
    refine Deed.latest_cons log ?_
    cases deed with
    | ended j text verdict kept =>
      have hj : j ≠ i := hi
      simp [Deed.kept?, hj]
    | _ => rfl
  have hcourse : desk.OnCourse log i key aim → desk.OnCourse (deed :: log) i key aim := fun hc =>
    ⟨hc.aims, fun hnot => (hc.settled hnot).congr rfl hlatest⟩
  refine ⟨hcount ▸ h.inbox, hcount ▸ h.course.imp_right hcourse, fun ht => ?_⟩
  rcases ht.of_cons with ⟨rfl, -⟩ | hold
  · exact absurd rfl hi
  · exact ⟨hcourse (h.through hold).1, (h.through hold).2⟩

theorem comes_of_take {work : Work} {texts : List String} {todo newer : List Work}
    (hwork : desk.inbox = work :: desk'.inbox) (hi : desk.inbox = todo ++ newer)
    (hphase : desk.phase = .idle) (hnext : desk'.phase = .working texts)
    (htexts : texts.Perm (desk.takenUp work)) (hr : desk'.roster = desk.roster)
    (hc : desk.Comes todo key aim) :
    desk'.Comes todo.tail key aim ∨ aim = none ∧ desk'.roster.get? key = none := by
  have hahead : key.text ∉ desk.phase.ahead := by simp [hphase, DeskPhase.ahead]
  have hnone : desk.roster.get? key = none ∨ key.text ∈ desk.takenUp .resync := by
    cases hg : desk.roster.get? key with
    | none => exact .inl rfl
    | some handle =>
      refine .inr (List.mem_map_of_mem (List.mem_map.mpr ⟨_, Roster.mem_of_get? hg, rfl⟩))
  cases todo with
  | nil =>
    rcases hc with hin | hin | ⟨-, hin⟩
    · simp at hin
    · exact absurd hin hahead
    · simp at hin
  | cons first rest =>
    obtain rfl : work = first := by
      rw [hwork] at hi
      exact (List.cons.inj hi).1
    rcases hc with hin | hin | ⟨hnil, hin⟩
    · rcases List.mem_cons.mp hin with rfl | hin
      · have hin : key.text ∈ texts := htexts.mem_iff.mpr (.head [])
        exact .inl (.inr (.inl (hnext ▸ hin)))
      · exact .inl (.inl hin)
    · exact absurd hin hahead
    · rcases List.mem_cons.mp hin with rfl | hin
      · rcases hnone with hg | hin
        · exact .inr ⟨hnil, hr ▸ hg⟩
        · exact .inl (.inr (.inl (hnext ▸ htexts.mem_iff.mpr hin)))
      · exact .inl (.inr (.inr ⟨hnil, hin⟩))

theorem newer_of_take {work : Work} {todo rest newer : List Work}
    (h : work :: rest = todo ++ newer) : ∃ newer, rest = todo.tail ++ newer := by
  cases todo with
  | nil => exact ⟨rest, rfl⟩
  | cons first others => exact ⟨newer, (List.cons.inj h).2⟩

theorem onCourse_of_begins {rest : List String} (hstep : desk.step false site = some (site', desk'))
    (hh : site.halted = false) (hphase : desk.phase = .working (key.text :: rest)) :
    desk'.OnCourse log i key aim := by
  simp only [Desk.step, hphase, hh, Bool.false_eq_true, if_false] at hstep
  cases hstep
  refine ⟨fun work others hp => ?_, fun hnot => absurd rfl (hnot _ rest)⟩
  cases hp
  trivial

theorem rests_of_deed? (h : desk.deed? i site desk' site' = some (.rested i)) :
    desk.phase = .working [] := by
  unfold deed? at h
  split at h
  next => split at h <;> cases h
  next hphase => exact hphase
  next =>
    obtain ⟨ended, -, he⟩ := Option.map_eq_some_iff.mp h
    cases he
  next => cases h

/-- If a step has been seen behind which all of that is worked off, the desk was on course before
it. -/
theorem onCourse_of_through (h : desk.Repairs held log i key aim)
    (ht : Deed.Through i held.length ((desk.deed? i site desk' site').toList ++ log)) :
    desk.OnCourse log i key aim ∧ desk.IsFair key aim := by
  cases hdeed : desk.deed? i site desk' site' with
  | none =>
    rw [hdeed] at ht
    exact h.through ht
  | some deed =>
    rw [hdeed] at ht
    rcases ht.of_cons with ⟨rfl, hcount⟩ | hold
    · have hphase := rests_of_deed? hdeed
      have hnil : held.drop (log.count (.took i)) = [] := List.drop_eq_nil_of_le hcount
      have hon := h.course.resolve_left fun hc => by
        simp [Comes, hphase, DeskPhase.ahead, hnil] at hc
      exact ⟨hon, (hon.settled (by simp [hphase])).isFair⟩
    · exact h.through hold

theorem course_of_take {work : Work} {texts : List String} {log' : List Deed}
    (h : desk.Repairs held log i key aim)
    (hphase : desk.phase = .idle) (hwork : desk.inbox = work :: desk'.inbox)
    (hnext : desk'.phase = .working texts) (htexts : texts.Perm (desk.takenUp work))
    (hr : desk'.roster = desk.roster)
    (hcourse : desk.OnCourse log i key aim → desk'.OnCourse log' i key aim) :
    desk'.Comes (held.drop (log.count (.took i))).tail key aim ∨ desk'.OnCourse log' i key aim := by
  obtain ⟨newer, hi⟩ := h.inbox
  rcases h.course with hc | hc
  · refine (comes_of_take hwork hi hphase hnext htexts hr hc).imp_right fun hnone => ?_
    obtain ⟨rfl, hg⟩ := hnone
    exact ⟨fun _ _ hp => by simp [hnext] at hp, fun _ => hg⟩
  · exact .inr (hcourse hc)

/-- As long as no more work is taken up, the key is still ahead or the desk is at it. -/
theorem course_of_stay {log' : List Deed} (h : desk.Repairs held log i key aim)
    (hstep : desk.step false site = some (site', desk')) (hh : site.halted = false)
    (hahead : ∀ text ∈ desk.phase.ahead, text ∈ desk'.phase.ahead ∨
      ∃ rest, desk.phase = .working (text :: rest))
    (hcourse : desk.OnCourse log i key aim → desk'.OnCourse log' i key aim) :
    desk'.Comes (held.drop (log.count (.took i))) key aim ∨ desk'.OnCourse log' i key aim := by
  rcases h.course with (hin | hin | hin) | hc
  · exact .inl (.inl hin)
  · rcases hahead key.text hin with hstill | ⟨rest, hphase⟩
    · exact .inl (.inr (.inl hstill))
    · exact .inr (onCourse_of_begins hstep hh hphase)
  · exact .inl (.inr (.inr hin))
  · exact .inr (hcourse hc)

theorem step (h : desk.Repairs held log i key aim)
    (hstep : desk.step false site = some (site', desk')) (ho : desk.Orderly site mine)
    (hreads : desk.IsReading) (hh : site.halted = false) (hopen : desk.IsOpen)
    (hs : desk.Succeeds site) (hk : key.IsWellFormed) (hp : site.hub.pointed key = aim) :
    desk'.Repairs held ((desk.deed? i site desk' site').toList ++ log) i key aim := by
  have hsteps := step_steps hstep ho hreads hh hopen hs hk
  have hcourse : desk.OnCourse log i key aim →
      desk'.OnCourse ((desk.deed? i site desk' site').toList ++ log) i key aim :=
    fun hc => hsteps.onCourse ho hh hk hp hc
  have hthrough : Deed.Through i held.length ((desk.deed? i site desk' site').toList ++ log) →
      desk'.OnCourse ((desk.deed? i site desk' site').toList ++ log) i key aim ∧
        desk'.IsFair key aim := by
    intro ht
    obtain ⟨hon, hfair⟩ := h.onCourse_of_through ht
    exact ⟨hcourse hon, hsteps.isFair ho hh hk hp hon hfair⟩
  obtain ⟨newer, hi⟩ := h.inbox
  rcases step_takes i hstep ho hreads hh hopen hs with
    ⟨work, texts, hphase, hwork, hnext, htexts, hr, hdeed⟩ | ⟨-, hinbox, hdeed, hahead⟩
  · rw [hdeed] at hcourse hthrough ⊢
    have hdrop : held.drop (((some (Deed.took i)).toList ++ log).count (.took i)) =
        (held.drop (log.count (.took i))).tail := by
      rw [Option.toList_some, List.singleton_append, List.count_cons_self, List.tail_drop]
    exact ⟨hdrop ▸ newer_of_take (hwork.symm.trans hi),
      hdrop ▸ h.course_of_take hphase hwork hnext htexts hr hcourse, hthrough⟩
  · have hcount : ((desk.deed? i site desk' site').toList ++ log).count (.took i) =
        log.count (.took i) := by
      cases hd : desk.deed? i site desk' site' with
      | none => rfl
      | some deed =>
        rw [hd] at hdeed
        exact List.count_cons_of_ne fun he => hdeed (congrArg some he)
    exact ⟨⟨newer, by rw [hcount, hinbox, hi]⟩,
      hcount ▸ h.course_of_stay hstep hh hahead hcourse, hthrough⟩

end Repairs

end Desk

namespace Supervision

/-- With the step from the one state to the other the leading task hands out a resync, after an
interruption of the addon stream or because it is time. -/
inductive Resyncs (s : Supervision) : Supervision → Prop
  | interrupted (feed : Nat) (tick : Span) (fault : Fault) (hub : Hub) (text : String)
      (hlead : s.lead = .leading feed true tick) (hh : s.site.halted = false)
      (hr : s.site.hub.receive feed = (.signal (.error fault), hub)) :
      Resyncs s
        (({ s with site := { s.site with hub := hub } } : Supervision).log .warn text).resync
  | ticked (feed : Nat) (tick : Span) (streaming : Bool)
      (hlead : s.lead = .leading feed streaming tick) (hh : s.site.halted = false)
      (hdue : tick.millis ≤ s.site.now) :
      Resyncs s { s.resync with
        lead := .leading feed streaming (s.site.settings.nextTick tick s.site.now) }

/-- What can be seen of the step of a task. -/
def deed? (s : Supervision) (t : Task) (next : Supervision) : Option Deed :=
  match t with
  | .desk i =>
    match s.desks[i]?, next.desks[i]? with
    | some desk, some desk' => desk.deed? i s.site desk' next.site
    | _, _ => none
  | _ => none

/-- The stored addons of recognised names point there. -/
def Points (s : Supervision) (aim : AddonKey → Option Fingerprint) : Prop :=
  ∀ key, key.IsRecognised s.names → s.site.hub.pointed key = aim key

/-- What may follow, as long as the scope is not cancelled and the stored addons go on to point
where they do, with what the desks are seen to do on the way, the latest first. -/
inductive Ensues (aim : AddonKey → Option Fingerprint) (start : Supervision) :
    List Deed → Supervision → Prop
  | start (hp : start.Points aim) : Ensues aim start [] start
  | task (log : List Deed) (s next : Supervision) (t : Task) (h : Ensues aim start log s)
      (hs : s.step t = some next) (hp : next.Points aim) :
      Ensues aim start ((s.deed? t next).toList ++ log) next
  | hub (log : List Deed) (s : Supervision) (hub : Hub) (h : Ensues aim start log s)
      (hp : ({ s with site := { s.site with hub := hub } } : Supervision).Points aim) :
      Ensues aim start log { s with site := { s.site with hub := hub } }
  | time (log : List Deed) (s : Supervision) (moment : Nat) (h : Ensues aim start log s)
      (ht : s.site.now ≤ moment) :
      Ensues aim start log { s with site := { s.site with now := moment } }
  | misses (log : List Deed) (s : Supervision) (exits : List String) (h : Ensues aim start log s)
      (hsub : exits.Sublist s.site.exits) :
      Ensues aim start log { s with site := { s.site with exits := exits } }

/-- Every reconciliation of a text that can be read as a key has succeeded. -/
def AllDone (log : List Deed) : Prop :=
  ∀ i text verdict kept, .ended i text verdict kept ∈ log →
    (∃ key, AddonKey.parse text = .ok key) → verdict = .done

namespace Ensues

variable {aim : AddonKey → Option Fingerprint} {start s : Supervision} {log : List Deed}

theorem points (h : start.Ensues aim log s) : s.Points aim := by
  induction h with
  | start hp => exact hp
  | task _ _ _ _ _ _ hp => exact hp
  | hub _ _ _ _ hp => exact hp
  | time _ _ _ _ _ ih => exact ih
  | misses _ _ _ _ _ ih => exact ih

theorem points_start (h : start.Ensues aim log s) : start.Points aim := by
  induction h with
  | start hp => exact hp
  | _ => assumption

theorem weathered (h : start.Ensues aim log s) (hw : start.Weathered) : s.Weathered := by
  induction h with
  | start => exact hw
  | task log s next t _ hs _ ih => exact .next s next ih (.task t next hs)
  | hub log s hub _ _ ih => exact .next s _ ih (.hub hub trivial)
  | time log s moment _ ht ih => exact .next s _ ih (.time moment ht)
  | misses log s exits _ hsub ih => exact .misses s exits ih hsub

end Ensues

/-- Work is handed out among the desks as it was in the other state. -/
structure Lasts (start s : Supervision) : Prop where
  unsealed : s.isSealed = false
  stands : s.site.halted = false
  names : s.names = start.names
  partition : ∀ text, s.partition text = start.partition text

theorem Lasts.step {start s next : Supervision} {t : Task} (h : start.Lasts s) (ho : s.Orderly)
    (hs : s.step t = some next) : start.Lasts next := by
  cases t with
  | child i =>
    obtain ⟨site, child, f, rfl, hc, hb, -, hm⟩ := stepChild_moves hs ho.staffed
    exact ⟨h.unsealed, (hm.ages hc hb).halted.trans h.stands, h.names, h.partition⟩
  | desk i =>
    obtain ⟨desk, desk', site, hd, hm, rfl⟩ := stepDesk_cases hs
    exact ⟨h.unsealed, hm.halted.trans h.stands, h.names,
      fun text => (s.partition_set_desk site i desk' text).trans (h.partition text)⟩
  | lead =>
    have hm := stepLead_moves hs
    obtain ⟨feed, streaming, tick, hl⟩ := leading_of_isSealed h.unsealed
    obtain ⟨⟨streaming', tick', hl'⟩, more, hsends⟩ := hm.goes_on hl h.stands
    obtain ⟨hub, trace, exits, he, -⟩ := hm.shared
    refine ⟨isSealed_of_leading hl', ?_, hm.names.trans h.names,
      fun text => (hsends.partition_eq text).trans (h.partition text)⟩
    rw [he]
    exact h.stands

theorem Ensues.lasts {aim : AddonKey → Option Fingerprint} {start s : Supervision}
    {log : List Deed} (h : start.Ensues aim log s) (hw : start.Weathered)
    (hstart : start.Lasts start) : start.Lasts s := by
  induction h with
  | start => exact hstart
  | task log s next t h hs _ ih => exact ih.step (h.weathered hw).orderly hs
  | hub log s hub _ _ ih => exact ⟨ih.unsealed, ih.stands, ih.names, ih.partition⟩
  | time log s moment _ ht ih => exact ⟨ih.unsealed, ih.stands, ih.names, ih.partition⟩
  | misses log s exits _ hsub ih => exact ⟨ih.unsealed, ih.stands, ih.names, ih.partition⟩

theorem AllDone.of_append {earlier later : List Deed} (h : AllDone (later ++ earlier)) :
    AllDone earlier :=
  fun i text verdict kept hm => h i text verdict kept (List.mem_append_right _ hm)

theorem succeeds_of_allDone {i : Nat} {desk desk' : Desk} {site site' : Site} {log : List Deed}
    (h : AllDone ((desk.deed? i site desk' site').toList ++ log)) : desk.Succeeds site := by
  intro text verdict hc hp
  refine h i text verdict (desk'.kept site' text) (List.mem_append_left _ ?_) hp
  obtain ⟨work, rest, -, -, hphase, -⟩ := Desk.conclusion?_eq_some hc
  simp [Desk.deed?, hphase, hc]

/-- Its own step brings a desk further with what its inbox held, and does not break it down. -/
theorem Ensues.works_off {aim : AddonKey → Option Fingerprint} {start s : Supervision}
    {log : List Deed} (h : start.Ensues aim log s) (hw : start.Weathered)
    (hstart : start.Lasts start) (hn : ∀ name ∈ start.names, '/' ∉ name.toList) {i : Nat}
    {desk desk' : Desk} {site : Site} {held : List Work} {key : AddonKey}
    (hd : s.desks[i]? = some desk) (hstep : desk.step s.isSealed s.site = some (site, desk'))
    (hs : desk.Succeeds s.site) (hk : key.IsRecognised start.names)
    (hrep : desk.Repairs held log i key (aim key)) :
    desk'.isDown = false ∧
      desk'.Repairs held ((desk.deed? i s.site desk' site).toList ++ log) i key (aim key) := by
  have hlasts := h.lasts hw hstart
  have hlater := h.weathered hw
  have hmem := List.mem_of_getElem? hd
  have hown := hlater.orderly.desks i desk hd
  have hreads := ((hlater.selective (hlasts.names ▸ hn)).desks desk hmem).2.reading
  have hopen := hlater.isManned.opens hlasts.unsealed hlasts.stands desk hmem
  rw [hlasts.unsealed] at hstep
  refine ⟨?_, hrep.step hstep hown hreads hlasts.stands hopen hs hk.wellFormed
    (h.points key (hlasts.names ▸ hk))⟩
  rcases Desk.step_takes i hstep hown hreads hlasts.stands hopen hs with
    ⟨work, texts, -, -, hnext, -⟩ | ⟨hne, -⟩
  · simp [Desk.isDown, hnext]
  · exact hne

/-- A desk that has not broken down works off what its inbox held, for each key that this asked
for. -/
theorem Ensues.repairs {aim : AddonKey → Option Fingerprint} {start s : Supervision}
    {log : List Deed} (h : start.Ensues aim log s) (hw : start.Weathered)
    (hstart : start.Lasts start) (hn : ∀ name ∈ start.names, '/' ∉ name.toList)
    (hok : AllDone log) {i : Nat} {first : Desk} (hd : start.desks[i]? = some first)
    (hup : first.isDown = false) {key : AddonKey} (hk : key.IsRecognised start.names)
    (hc : first.Comes first.inbox key (aim key)) :
    ∃ desk, s.desks[i]? = some desk ∧ desk.isDown = false ∧
      desk.Repairs first.inbox log i key (aim key) := by
  induction h with
  | start => exact ⟨first, hd, hup, .start hc⟩
  | task log s next t h hs _ ih =>
    obtain ⟨desk, hdesk, hstands, hrep⟩ := ih hok.of_append
    cases t with
    | child j =>
      obtain ⟨site, -, rfl⟩ := stepChild_cases hs
      exact ⟨desk, hdesk, hstands, hrep⟩
    | desk j =>
      obtain ⟨old, new, site, hold, hstep, rfl⟩ := step_of_stepDesk hs
      have hnew : (s.desks.set j new)[j]? = some new :=
        List.getElem?_set_self (List.getElem?_eq_some_iff.mp hold).1
      have hdeed : s.deed? (.desk j) { s with site := site, desks := s.desks.set j new } =
          old.deed? j s.site new site := by
        simp only [deed?, hold, hnew]
      rw [hdeed] at hok ⊢
      by_cases hj : j = i
      · subst hj
        obtain rfl : old = desk := Option.some.inj (hold.symm.trans hdesk)
        obtain ⟨hnext, hlater⟩ := h.works_off hw hstart hn hold hstep (succeeds_of_allDone hok) hk
          hrep
        exact ⟨new, hnew, hnext, hlater⟩
      · have hkept : ({ s with site := site, desks := s.desks.set j new } :
            Supervision).desks[i]? = some desk := (List.getElem?_set_ne hj).trans hdesk
        refine ⟨desk, hkept, hstands, ?_⟩
        cases hd : old.deed? j s.site new site with
        | none => exact hrep
        | some deed => exact hrep.elsewhere (Desk.desk_of_deed? hd ▸ hj)
    | lead =>
      have hlasts := h.lasts hw hstart
      obtain ⟨feed, streaming, tick, hl⟩ := leading_of_isSealed hlasts.unsealed
      obtain ⟨-, more, hsends⟩ := (stepLead_moves hs).goes_on hl hlasts.stands
      refine ⟨{ desk with inbox := desk.inbox ++ more i }, ?_, hstands, hrep.hears (more i)⟩
      rw [hsends.desks, hdesk]
      rfl
  | hub log s hub _ _ ih => exact ih hok
  | time log s moment _ _ ih => exact ih hok
  | misses log s exits _ _ ih => exact ih hok

end Supervision

end AddonWatch

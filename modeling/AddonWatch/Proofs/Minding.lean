import AddonWatch.Proofs.Answering

namespace AddonWatch

theorem Hub.Passes.holds {n : Nat} {old new : Hub} {object : ObjectName} (h : old.Passes n new)
    (ho : old.Holds n object) : new.Holds n object := by
  obtain ⟨f, hf, present, hm⟩ := ho
  obtain ⟨g, more, hg, -, -, hq, -⟩ := h.feed hf
  exact ⟨g, hg, present, hq ▸ List.mem_append_left _ hm⟩

/-- What a stream holds it goes on to hold, but for the signal that is taken from it. -/
theorem Hub.holds_of_receive {hub next : Hub} {feed : Nat} {signal : Signal} {object : ObjectName}
    (h : hub.receive feed = (.signal signal, next)) (ho : hub.Holds feed object) :
    next.Holds feed object ∨ ∃ present, signal = .ok ⟨object, present⟩ := by
  obtain ⟨f, hf, present, hm⟩ := ho
  obtain ⟨g, rest, hg, hq, rfl⟩ := receive_signal h
  obtain rfl : f = g := Option.some.inj (hf.symm.trans hg)
  rw [hq] at hm
  rcases List.mem_cons.mp hm with he | hm
  · exact .inr ⟨present, he.symm⟩
  · exact .inl ⟨{ f with queue := rest }, by simp [hf], present, hm⟩

namespace Desk

/-- The answer of a desk rests on the stored addon and on the watchers of the key alone. -/
theorem Answers.keeps {desk : Desk} {site next : Site} {key : AddonKey} (h : desk.Answers site key)
    (ha : next.hub.addon? key.objectName = site.hub.addon? key.objectName)
    (hl : ∀ i a, site.Live i a → a.key = key → next.Live i a) : desk.Answers next key := by
  rcases h with ⟨work, rest, hphase, hs⟩ | ⟨hphase, hwait | hagree⟩
  · exact .inl ⟨work, rest, hphase, hs.congr ha⟩
  · exact .inr ⟨hphase, .inl hwait⟩
  · exact .inr ⟨hphase, .inr (hagree.congr ha rfl hl)⟩

/-- Only a scope that is cancelled, or work that has come to its end, closes a desk. -/
theorem Moves.isOpen {desk desk' : Desk} {isSealed : Bool} {site site' : Site}
    (h : desk.Moves isSealed site site' desk') (ho : desk.IsOpen) :
    desk'.IsOpen ∨ site.halted = true ∨ isSealed = true := by
  cases h with
  | closes alarms hphase hend => exact .inr hend
  | turns => exact .inl ho
  | concludes text work rest next after roster verdict _ hphase _ hm hc =>
    left
    rcases hc.phase with hphase' | ⟨message, hphase'⟩ <;>
      exact ⟨by simp [hphase'], by simp [hphase']⟩
  | settles closing closing' next hphase => exact absurd hphase (ho.1 closing)
  | finishes closing next hphase => exact absurd hphase (ho.1 closing)
  | _ => exact .inl ⟨by simp [wake], by simp [wake]⟩

theorem isOver_eq_false {desk : Desk} (ho : desk.IsOpen) (hup : desk.isDown = false) :
    desk.isOver = false := by
  unfold isOver
  split
  next he => exact absurd he ho.2
  next message he => simp [isDown, he] at hup
  next => rfl

end Desk

namespace Supervision

variable {w : Surroundings} {s next : Supervision} {key : AddonKey}

theorem handed_self {desk : Desk} {text : String} (hd : s.desks[s.partition text]? = some desk)
    (hopen : desk.isOver = false) : .sync text ∈ s.handed text (s.partition text) := by
  unfold handed
  rw [if_pos ⟨rfl, by simp [hd, hopen]⟩]
  exact List.mem_singleton_self _

/-- As long as work is handed out there is a desk for every key, and none is closed. -/
structure IsManned (s : Supervision) : Prop where
  desks : s.isSealed = false → 0 < s.desks.length
  opens : s.isSealed = false → s.site.halted = false → ∀ desk ∈ s.desks, desk.IsOpen

theorem isSealed_of_leading {feed : Nat} {tick : Span} {streaming : Bool}
    (h : s.lead = .leading feed streaming tick) : s.isSealed = false := by
  simp [isSealed, isOpenLead, h]

theorem leading_of_isSealed (h : s.isSealed = false) :
    ∃ feed streaming tick, s.lead = .leading feed streaming tick := by
  unfold isSealed isOpenLead at h
  split at h
  next feed streaming tick hl => exact ⟨feed, streaming, tick, hl⟩
  next => simp at h

theorem begin_isManned (s : Supervision) : s.begin.IsManned := by
  obtain ⟨hub, trace, lead, he, -⟩ := Orderly.begin_eq s
  rw [he]
  refine ⟨fun _ => ?_, fun _ _ desk hd => ?_⟩
  · simp only [List.length_replicate, count]
    omega
  · obtain rfl := List.eq_of_mem_replicate hd
    exact ⟨by simp, by simp⟩

theorem LeadMoves.isManned (hm : s.LeadMoves next) (h : s.IsManned) : next.IsManned := by
  by_cases hn : next.isSealed = false
  · obtain ⟨feed, streaming, tick, hl⟩ := leading_of_isSealed hn
    rcases hm.leading hl with ⟨_, _, hold⟩ | ⟨-, rfl, -⟩
    · have hs := isSealed_of_leading hold
      rcases hm.desks with ⟨call, deadline, -, rfl⟩ | ⟨more, hsends⟩
      · exact begin_isManned s
      · obtain ⟨hub, trace, exits, he, -⟩ := hm.shared
        refine ⟨fun _ => hsends.length ▸ h.desks hs, fun _ hh desk hd => ?_⟩
        obtain ⟨i, hi⟩ := List.mem_iff_getElem?.mp hd
        rw [hsends.desks] at hi
        obtain ⟨old, ho, rfl⟩ := Option.map_eq_some_iff.mp hi
        rw [he] at hh
        exact h.opens hs hh old (List.mem_of_getElem? ho)
    · exact begin_isManned s
  · exact ⟨fun h => absurd h hn, fun h => absurd h hn⟩

theorem IsManned.of_isFresh (hf : s.IsFresh) : s.IsManned := by
  have hseal : s.isSealed = true := by simp [isSealed, isOpenLead, hf.lead]
  exact ⟨fun hn => by simp [hseal] at hn, fun hn => by simp [hseal] at hn⟩

theorem IsManned.set_desk {site : Site} {i : Nat} {desk desk' : Desk} (h : s.IsManned)
    (hd : s.desks[i]? = some desk) (hm : desk.Moves s.isSealed s.site site desk') :
    ({ s with site := site, desks := s.desks.set i desk' } : Supervision).IsManned := by
  refine ⟨fun hn => by simpa using h.desks hn, fun hn hh other hother => ?_⟩
  have hold := hm.grows.halted hh
  have hseal : s.isSealed = false := hn
  rcases List.mem_or_eq_of_mem_set hother with hm' | rfl
  · exact h.opens hn hold other hm'
  · rcases hm.isOpen (h.opens hn hold desk (List.mem_of_getElem? hd)) with hopen | hhalt | hsealed
    · exact hopen
    · simp [hold] at hhalt
    · simp [hseal] at hsealed

theorem IsManned.moves (h : s.IsManned) (ho : s.Orderly) (hm : s.Moves w next) :
    next.IsManned := by
  cases hm with
  | task t _ hstep =>
    cases t with
    | child i =>
      obtain ⟨site, child, f, rfl, hc, hb, -, hmoves⟩ := stepChild_moves hstep ho.staffed
      exact ⟨h.desks, fun hn hh => h.opens hn ((hmoves.ages hc hb).halted ▸ hh)⟩
    | desk i =>
      obtain ⟨desk, desk', site, hd, hmoves, rfl⟩ := stepDesk_cases hstep
      exact h.set_desk hd hmoves
    | lead => exact (stepLead_moves hstep).isManned h
  | hub hub => exact ⟨h.desks, h.opens⟩
  | time moment => exact ⟨h.desks, h.opens⟩
  | halt => exact ⟨h.desks, fun _ hh => by simp at hh⟩

theorem Reached.isManned (h : s.Reached w) : s.IsManned := by
  induction h with
  | start s hf => exact .of_isFresh hf
  | next s s' hr hm ih => exact ih.moves hr.orderly hm

theorem LeadMoves.names (hm : s.LeadMoves next) : next.names = s.names := by
  rcases hm.desks with ⟨call, deadline, -, rfl⟩ | ⟨more, hs⟩
  · obtain ⟨hub, trace, lead, he, -⟩ := Orderly.begin_eq s
    rw [he]
  · exact hs.names

/-- What the leading task takes from the reports or out of its stream goes to the desk that it
belongs to. -/
theorem LeadMoves.hands (hm : s.LeadMoves next) {feed : Nat} {tick tick' : Span}
    {streaming streaming' : Bool} (hl : s.lead = .leading feed streaming tick)
    (hl' : next.lead = .leading feed streaming' tick')
    (hname : s.names.contains key.name = true) :
    ∃ more, s.Sends next more ∧ ∀ desk, s.desks[s.partition key.text]? = some desk →
      desk.isOver = false → s.site.hub.Holds feed key.objectName ∨ key.text ∈ s.site.exits →
        (next.site.hub.Holds feed key.objectName ∨ key.text ∈ next.site.exits) ∨
          .sync key.text ∈ more (s.partition key.text) := by
  have hexits : ∀ {mid : Supervision} {more : Nat → List Work}, mid.HandsOut next more →
      next.site.exits = mid.site.exits := fun hout => by
    obtain ⟨trace, he⟩ := hout.site
    rw [he]
  cases hm with
  | reports feed' tick' streaming' text rest hlead hh hexit =>
    have hout := handsOut_dispatch { s with site := { s.site with exits := rest } } text
    refine ⟨_, .of_handsOut hout rfl rfl rfl, fun desk hd hopen hp => ?_⟩
    rw [hout.hub, hexits hout]
    rcases hp with hh | he
    · exact .inl (.inl hh)
    · rw [hexit] at he
      rcases List.mem_cons.mp he with rfl | he
      · exact .inr (handed_self hd hopen)
      · exact .inl (.inr he)
  | sees feed' tick' sighting hub hlead hh hr =>
    cases hl.symm.trans hlead
    have hout := handsOut_dispatch ({ s with site := { s.site with hub := hub } } : Supervision)
      sighting.object.text
    refine ⟨_, .of_handsOut hout rfl rfl rfl, fun desk hd hopen hp => ?_⟩
    rw [hout.hub, hexits hout]
    rcases hp with hh | he
    · rcases Hub.holds_of_receive hr hh with hh | ⟨present, he⟩
      · exact .inl (.inl hh)
      · cases he
        exact .inr (handed_self hd hopen)
    · exact .inl (.inr he)
  | overlooks feed' tick' sighting hub hlead hh hr hnot =>
    cases hl.symm.trans hlead
    refine ⟨_, .keeps rfl rfl rfl, fun desk hd hopen hp => .inl (hp.imp_left fun hh => ?_)⟩
    rcases Hub.holds_of_receive hr hh with hh | ⟨present, he⟩
    · exact hh
    · cases he
      exact absurd (hname.symm.trans hnot) (by simp)
  | resyncs feed' tick' fault hub text hlead hh hr =>
    cases hl.symm.trans hlead
    obtain ⟨more, hout⟩ := handsOut_resync
      (({ s with site := { s.site with hub := hub } } : Supervision).log .warn text)
    refine ⟨more, .of_handsOut hout rfl rfl rfl, fun desk hd hopen hp => .inl ?_⟩
    rw [hout.hub, hexits hout]
    refine hp.imp_left fun hh => ?_
    rcases Hub.holds_of_receive hr hh with hh | ⟨present, he⟩
    · exact hh
    · cases he
  | outlives feed' tick' hub text hlead hh hr =>
    exact ⟨_, .keeps rfl rfl rfl, fun desk hd hopen hp => .inl hp⟩
  | ticks feed' tick' streaming' hlead hh hdue =>
    obtain ⟨more, hout⟩ := handsOut_resync s
    have hs : s.Sends s.resync more := .of_handsOut hout rfl rfl rfl
    obtain ⟨trace, he⟩ := hout.site
    refine ⟨more, ⟨hs.route, hs.names, hs.length, hs.desks, hs.owned⟩, fun desk hd hopen hp => ?_⟩
    dsimp only
    rw [he]
    exact .inl hp
  | begins call deadline hlead => simp [hl] at hlead
  | asks hlead => simp [hl] at hlead
  | waits call waiting deadline hlead => simp [hl] at hlead
  | _ => cases hl'

end Supervision

end AddonWatch

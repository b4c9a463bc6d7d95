import AddonWatch.Proofs.Attribution

namespace AddonWatch

/-- Nothing is known of these surroundings. -/
def Surroundings.any : Surroundings where
  admits _ := True
  allows _ _ := True

/-- A desk that breaks down keeps no watcher registered. -/
theorem Desk.Moves.roster_of_isDown {desk desk' : Desk} {isSealed : Bool} {site site' : Site}
    (h : desk.Moves isSealed site site' desk') (hk : desk.KeepsRetries)
    (hc : desk'.isDown = true) : desk'.roster = {} := by
  cases h with
  | concludes text work rest next after roster verdict _ hphase hh hm hconc =>
    have hkeeps := hk.working roster rest
    rcases hconc.frame hkeeps with ⟨message, rfl⟩ | ⟨-, -, -, hphase', -⟩
    · rfl
    · simp [isDown, hphase'] at hc
  | turns alarms hidle => simp [isDown, hidle] at hc
  | wakes => simp [isDown, wake] at hc
  | _ => cases hc

namespace Supervision

variable {w : Surroundings} {s next : Supervision}

/-- The states that a run comes to, whichever task goes on and whatever is done to the hub and its
streams, when also reports of watchers that ended by themselves may get lost. -/
inductive Weathered : Supervision → Prop
  | start (s : Supervision) (hf : s.IsFresh) : Weathered s
  | next (s s' : Supervision) (h : Weathered s) (hm : s.Moves .any s') : Weathered s'
  | misses (s : Supervision) (exits : List String) (h : Weathered s)
      (hsub : exits.Sublist s.site.exits) :
      Weathered { s with site := { s.site with exits := exits } }

theorem Reached.weathered (h : s.Reached w) : s.Weathered := by
  induction h with
  | start s hf => exact .start s hf
  | next s s' _ hm ih =>
    refine .next s s' ih ?_
    cases hm with
    | task t _ hs => exact .task t _ hs
    | hub hub => exact .hub hub trivial
    | time moment ht => exact .time moment ht
    | halt => exact .halt

namespace Weathered

theorem orderly (h : s.Weathered) : s.Orderly := by
  induction h with
  | start s hf => exact .of_isFresh hf
  | next s s' _ hm ih => exact ih.moves hm
  | misses s exits _ _ ih =>
    exact ih.sends (.keeps rfl rfl rfl) (Site.Ages.hub_trace s.site s.site.hub _ exits).grows rfl
      fun hu => hu

theorem isManned (h : s.Weathered) : s.IsManned := by
  induction h with
  | start s hf => exact .of_isFresh hf
  | next s s' hs hm ih => exact ih.moves hs.orderly hm
  | misses s exits _ _ ih => exact ⟨ih.desks, ih.opens⟩

theorem selective (h : s.Weathered) (hn : ∀ name ∈ s.names, '/' ∉ name.toList) :
    s.Selective := by
  induction h with
  | start s hf => exact .of_isFresh hn hf
  | next s s' hs hm ih => exact (ih (hm.names ▸ hn)).moves hs.orderly hm
  | misses s exits _ hsub ih =>
    have hs := ih hn
    have hages := Site.Ages.hub_trace s.site s.site.hub s.site.trace exits
    exact ⟨hn, fun desk hd => ⟨(hs.desks desk hd).1.grows hages.grows, (hs.desks desk hd).2⟩,
      hs.children, fun text ht => hs.exits text (hsub.subset ht)⟩

theorem roster_of_isDown (h : s.Weathered) :
    ∀ desk ∈ s.desks, desk.isDown = true → desk.roster = {} := by
  induction h with
  | start s hf => simp [hf.desks]
  | next s s' hs hm ih =>
    cases hm with
    | task t _ hstep =>
      cases t with
      | child i =>
        obtain ⟨site, -, rfl⟩ := stepChild_cases hstep
        exact ih
      | desk i =>
        obtain ⟨desk, desk', site, hd, hmoves, rfl⟩ := stepDesk_cases hstep
        intro other ho
        rcases List.mem_or_eq_of_mem_set ho with hold | rfl
        · exact ih other hold
        · exact hmoves.roster_of_isDown (hs.orderly.desks i desk hd).retries
      | lead =>
        exact (stepLead_moves hstep).forall_desks (fun _ _ hc => by cases hc) (fun _ _ hd => hd) ih
    | _ => exact ih
  | misses s exits _ _ ih => exact ih

end Weathered

/-- While the scope stands the leading task goes on to hand out work. -/
theorem LeadMoves.goes_on (hm : s.LeadMoves next) {feed : Nat} {tick : Span} {streaming : Bool}
    (hl : s.lead = .leading feed streaming tick) (hh : s.site.halted = false) :
    (∃ streaming tick, next.lead = .leading feed streaming tick) ∧ ∃ more, s.Sends next more := by
  have hsends : ∃ more, s.Sends next more := by
    rcases hm.desks with ⟨call, deadline, hlead, -⟩ | hsends
    · rw [hl] at hlead
      cases hlead
    · exact hsends
  refine ⟨?_, hsends⟩
  cases hm with
  | stops _ _ _ _ _ hhalted => simp [hh] at hhalted
  | reports _ _ _ key rest =>
    exact ⟨_, _, (handsOut_dispatch { s with site := { s.site with exits := rest } } key).lead.trans
      hl⟩
  | sees _ _ sighting hub =>
    exact ⟨_, _, (handsOut_dispatch ({ s with site := { s.site with hub := hub } } : Supervision)
      sighting.object.text).lead.trans hl⟩
  | overlooks => exact ⟨_, _, hl⟩
  | resyncs _ _ _ hub text =>
    exact ⟨_, _, (handsOut_resent (({ s with site := { s.site with hub := hub } } :
      Supervision).log .warn text)).lead.trans hl⟩
  | outlives _ _ _ _ hlead =>
    cases hl.symm.trans hlead
    exact ⟨_, _, rfl⟩
  | ticks _ _ _ hlead =>
    cases hl.symm.trans hlead
    exact ⟨_, _, rfl⟩
  | asks hlead => simp [hl] at hlead
  | waits _ _ _ hlead => simp [hl] at hlead
  | begins _ _ hlead => simp [hl] at hlead
  | givesUp _ _ _ hlead => simp [hl] at hlead
  | breaks _ _ _ hlead => simp [hl] at hlead
  | joins hlead => simp [hl] at hlead

end Supervision

end AddonWatch

import AddonWatch.Proofs.HandingOut
import AddonWatch.Proofs.HubView

namespace AddonWatch

namespace Supervision

/-- What the leading task can do next. -/
inductive LeadMoves (s : Supervision) : Supervision → Prop
  | asks (hlead : s.lead = .fresh) :
      LeadMoves s { s with
        lead := .opening ⟨s.site.now, s.site.hub.addonsOpen⟩
          (s.site.now + s.site.settings.callTimeout.millis) }
  | waits (call next : Call) (deadline : Nat) (hlead : s.lead = .opening call deadline)
      (hcall : call.advance s.site.now = .inl next) :
      LeadMoves s { s with lead := .opening next deadline }
  | begins (call : Call) (deadline : Nat) (hlead : s.lead = .opening call deadline)
      (hcall : call.advance s.site.now = .inr .granted) : LeadMoves s s.begin
  | givesUp (call : Call) (deadline : Nat) (verdict : Verdict)
      (hlead : s.lead = .opening call deadline) : LeadMoves s { s with lead := .ended verdict }
  | breaks (call : Call) (deadline : Nat) (message : String)
      (hlead : s.lead = .opening call deadline) : LeadMoves s { s with lead := .broken message }
  | stops (feed : Nat) (tick : Span) (streaming : Bool) (text : String)
      (hlead : s.lead = .leading feed streaming tick) (hh : s.site.halted = true) :
      LeadMoves s { (s.log .info text).release feed with lead := .joining }
  | reports (feed : Nat) (tick : Span) (streaming : Bool) (key : String) (rest : List String)
      (hlead : s.lead = .leading feed streaming tick) (hh : s.site.halted = false)
      (hexits : s.site.exits = key :: rest) :
      LeadMoves s ({ s with site := { s.site with exits := rest } }.dispatch key)
  | sees (feed : Nat) (tick : Span) (sighting : Sighting) (hub : Hub)
      (hlead : s.lead = .leading feed true tick) (hh : s.site.halted = false)
      (hr : s.site.hub.receive feed = (.signal (.ok sighting), hub))
      (hname : s.names.contains sighting.object.name = true) :
      LeadMoves s ({ s with site := { s.site with hub := hub } }.dispatch sighting.object.text)
  | overlooks (feed : Nat) (tick : Span) (sighting : Sighting) (hub : Hub)
      (hlead : s.lead = .leading feed true tick) (hh : s.site.halted = false)
      (hr : s.site.hub.receive feed = (.signal (.ok sighting), hub))
      (hname : s.names.contains sighting.object.name = false) :
      LeadMoves s { s with site := { s.site with hub := hub } }
  | resyncs (feed : Nat) (tick : Span) (fault : Fault) (hub : Hub) (text : String)
      (hlead : s.lead = .leading feed true tick) (hh : s.site.halted = false)
      (hr : s.site.hub.receive feed = (.signal (.error fault), hub)) :
      LeadMoves s ({ s with site := { s.site with hub := hub } }.log .warn text).resync
  | outlives (feed : Nat) (tick : Span) (hub : Hub) (text : String)
      (hlead : s.lead = .leading feed true tick) (hh : s.site.halted = false)
      (hr : s.site.hub.receive feed = (.ended, hub)) :
      LeadMoves s { s.log .warn text with lead := .leading feed false tick }
  | ticks (feed : Nat) (tick : Span) (streaming : Bool)
      (hlead : s.lead = .leading feed streaming tick) (hh : s.site.halted = false)
      (hdue : tick.millis ≤ s.site.now) :
      LeadMoves s { s.resync with
        lead := .leading feed streaming (s.site.settings.nextTick tick s.site.now) }
  | joins (hlead : s.lead = .joining) (hover : s.desks.all Desk.isOver = true) :
      LeadMoves s { s.reportCrashes with lead := .ended .done }

/-- Handing out work after a change of the hub or of the reports leaves the children alone. -/
theorem HandsOut.shared {s mid next : Supervision} {more : Nat → List Work}
    (h : mid.HandsOut next more)
    (hs : ∃ hub trace exits,
      mid.site = { s.site with hub := hub, trace := trace, exits := exits } ∧
        mid.site.writes = s.site.writes) :
    ∃ hub trace exits, next.site = { s.site with hub := hub, trace := trace, exits := exits } ∧
      next.site.writes = s.site.writes := by
  obtain ⟨hub, trace, exits, he, hw⟩ := hs
  obtain ⟨trace', he'⟩ := h.site
  exact ⟨hub, trace', exits, by rw [he', he], h.writes.trans hw⟩

/-- The leading task changes nothing that all tasks share but the hub and the reports, and leaves
marks, none of them of a write. -/
theorem LeadMoves.shared {s next : Supervision} (h : s.LeadMoves next) :
    ∃ hub trace exits, next.site = { s.site with hub := hub, trace := trace, exits := exits } ∧
      next.site.writes = s.site.writes := by
  cases h with
  | begins =>
    unfold begin
    dsimp only
    split <;> exact ⟨_, _, _, rfl, rfl⟩
  | reports feed tick streaming key rest =>
    exact (handsOut_dispatch _ key).shared ⟨_, _, rest, rfl, rfl⟩
  | sees feed tick sighting hub =>
    exact (handsOut_dispatch _ sighting.object.text).shared ⟨hub, _, _, rfl, rfl⟩
  | resyncs feed tick fault hub text =>
    obtain ⟨more, hout⟩ := handsOut_resync
      (({ s with site := { s.site with hub := hub } } : Supervision).log .warn text)
    exact hout.shared ⟨hub, _, _, rfl, rfl⟩
  | ticks =>
    obtain ⟨more, hout⟩ := handsOut_resync s
    have hs := hout.shared (s := s) ⟨_, _, _, rfl, rfl⟩
    exact hs
  | joins =>
    have hs := (handsOut_reportCrashes s).shared (s := s) ⟨_, _, _, rfl, rfl⟩
    exact hs
  | _ => exact ⟨_, _, _, rfl, rfl⟩

/-- What the leading task does to the hub: it lets go of streams, opens the one of all addons, or
takes a signal from that. -/
theorem LeadMoves.hub {s next : Supervision} (h : s.LeadMoves next) :
    s.site.hub.Sheds next.site.hub ∨ s.site.hub.openAddons.1.Sheds next.site.hub ∨
      ∃ feed streaming tick signal, s.lead = .leading feed streaming tick ∧
        s.site.hub.receive feed = (.signal signal, next.site.hub) := by
  cases h with
  | begins =>
    right
    left
    unfold begin
    dsimp only
    split
    · exact .releaseFeed _ _
    · exact .refl _
  | stops feed => exact .inl (.releaseFeed _ feed)
  | reports feed tick streaming key rest =>
    rw [(handsOut_dispatch _ key).hub]
    exact .inl (.refl _)
  | sees feed tick sighting hub hlead hh hr =>
    rw [(handsOut_dispatch _ sighting.object.text).hub]
    exact .inr (.inr ⟨feed, true, tick, _, hlead, hr⟩)
  | overlooks feed tick sighting hub hlead hh hr =>
    exact .inr (.inr ⟨feed, true, tick, _, hlead, hr⟩)
  | resyncs feed tick fault hub text hlead hh hr =>
    obtain ⟨more, hout⟩ := handsOut_resync
      (({ s with site := { s.site with hub := hub } } : Supervision).log .warn text)
    rw [hout.hub]
    exact .inr (.inr ⟨feed, true, tick, _, hlead, hr⟩)
  | ticks =>
    obtain ⟨more, hout⟩ := handsOut_resync s
    have he : s.resync.site.hub = s.site.hub := hout.hub
    exact .inl (he ▸ .refl _)
  | joins =>
    have he : s.reportCrashes.site.hub = s.site.hub := (handsOut_reportCrashes s).hub
    exact .inl (he ▸ .refl _)
  | _ => exact .inl (.refl _)

/-- The desks as they are, each perhaps with more work of its own partition in its inbox. -/
structure Sends (old new : Supervision) (more : Nat → List Work) : Prop where
  route : new.route = old.route
  names : new.names = old.names
  length : new.desks.length = old.desks.length
  desks : ∀ i : Nat, new.desks[i]? =
    old.desks[i]?.map fun desk : Desk => { desk with inbox := desk.inbox ++ more i }
  owned : ∀ i key, .sync key ∈ more i → old.partition key = i

namespace Sends

theorem keeps {old new : Supervision} (hroute : new.route = old.route)
    (hnames : new.names = old.names) (hdesks : new.desks = old.desks) :
    old.Sends new fun _ => [] := by
  refine ⟨hroute, hnames, by rw [hdesks], fun i => ?_, fun i key h => by simp at h⟩
  rw [hdesks]
  cases old.desks[i]? <;> simp

theorem of_handsOut {old mid new : Supervision} {more : Nat → List Work}
    (h : mid.HandsOut new more) (hroute : mid.route = old.route) (hnames : mid.names = old.names)
    (hdesks : mid.desks = old.desks) : old.Sends new more := by
  refine ⟨h.route.trans hroute, h.names.trans hnames, by rw [h.length, hdesks],
    fun i => by rw [h.desks, hdesks], fun i key hk => ?_⟩
  rw [← h.owned i key hk]
  simp [partition, hroute, hdesks]

theorem partition_eq {old new : Supervision} {more : Nat → List Work} (h : old.Sends new more)
    (key : String) : new.partition key = old.partition key := by
  simp [partition, h.route, h.length]

/-- What does not depend on the inbox of a desk goes on to hold of all desks. -/
theorem forall_desks {old new : Supervision} {more : Nat → List Work} {p : Desk → Prop}
    (h : old.Sends new more)
    (hsent : ∀ (desk : Desk) more, p desk → p { desk with inbox := desk.inbox ++ more })
    (hs : ∀ desk ∈ old.desks, p desk) : ∀ desk ∈ new.desks, p desk := by
  intro desk hd
  obtain ⟨i, hi⟩ := List.mem_iff_getElem?.mp hd
  rw [h.desks] at hi
  obtain ⟨before, hb, rfl⟩ := Option.map_eq_some_iff.mp hi
  exact hsent before _ (hs before (List.mem_of_getElem? hb))

end Sends

/-- What the leading task does to the desks: it sets them up, or sends them work. -/
theorem LeadMoves.desks {s next : Supervision} (h : s.LeadMoves next) :
    (∃ call deadline, s.lead = .opening call deadline ∧ next = s.begin) ∨
      ∃ more, s.Sends next more := by
  cases h with
  | begins call deadline hlead => exact .inl ⟨call, deadline, hlead, rfl⟩
  | reports feed tick streaming key rest =>
    exact .inr ⟨_, .of_handsOut (handsOut_dispatch _ key) rfl rfl rfl⟩
  | sees feed tick sighting hub =>
    exact .inr ⟨_, .of_handsOut (handsOut_dispatch _ sighting.object.text) rfl rfl rfl⟩
  | resyncs feed tick fault hub text =>
    obtain ⟨more, hout⟩ := handsOut_resync
      (({ s with site := { s.site with hub := hub } } : Supervision).log .warn text)
    exact .inr ⟨more, .of_handsOut hout rfl rfl rfl⟩
  | ticks =>
    obtain ⟨more, hout⟩ := handsOut_resync s
    have hs : s.Sends s.resync more := .of_handsOut hout rfl rfl rfl
    exact .inr ⟨more, hs.route, hs.names, hs.length, hs.desks, hs.owned⟩
  | joins =>
    have hs := Sends.of_handsOut (handsOut_reportCrashes s) rfl rfl rfl
    exact .inr ⟨_, hs.route, hs.names, hs.length, hs.desks, hs.owned⟩
  | _ => exact .inr ⟨_, .keeps rfl rfl rfl⟩

/-- Only before the addon stream is open can the leading task be there once more. -/
theorem LeadMoves.unopened {s next : Supervision} (h : s.LeadMoves next)
    (hn : next.lead = .fresh ∨ ∃ call deadline, next.lead = .opening call deadline) :
    s.lead = .fresh ∨ ∃ call deadline, s.lead = .opening call deadline := by
  have hleading : ∀ {mid : Supervision} {more : Nat → List Work} {feed : Nat} {tick : Span}
      {streaming : Bool}, mid.HandsOut next more → mid.lead = .leading feed streaming tick →
        False := by
    intro mid more feed tick streaming hout hlead
    rw [hout.lead, hlead] at hn
    simp at hn
  cases h with
  | asks hlead => exact .inl hlead
  | waits call waiting deadline hlead => exact .inr ⟨call, deadline, hlead⟩
  | begins call deadline hlead => exact .inr ⟨call, deadline, hlead⟩
  | reports feed tick streaming key rest hlead =>
    exact (hleading (handsOut_dispatch _ key) hlead).elim
  | sees feed tick sighting hub hlead =>
    exact (hleading (handsOut_dispatch _ sighting.object.text) hlead).elim
  | overlooks feed tick sighting hub hlead => simp [hlead] at hn
  | resyncs feed tick fault hub text hlead =>
    obtain ⟨more, hout⟩ := handsOut_resync
      (({ s with site := { s.site with hub := hub } } : Supervision).log .warn text)
    exact (hleading hout hlead).elim
  | _ => simp at hn

theorem moves_of_ticking {s next : Supervision} {feed : Nat} {tick : Span} {streaming : Bool}
    (hlead : s.lead = .leading feed streaming tick) (hh : s.site.halted = false)
    (h : s.stepTick feed streaming tick = some next) : s.LeadMoves next := by
  unfold stepTick at h
  split at h
  next hdue =>
    cases h
    exact .ticks feed tick streaming hlead hh hdue
  next => cases h

theorem moves_of_events {s next : Supervision} {feed : Nat} {tick : Span}
    (hlead : s.lead = .leading feed true tick) (hh : s.site.halted = false)
    (h : s.stepEvents feed tick = some next) : s.LeadMoves next := by
  rcases hr : s.site.hub.receive feed with ⟨signal | _ | _, hub⟩
  · cases signal with
    | ok sighting =>
      cases hname : s.names.contains sighting.object.name with
      | true =>
        simp only [stepEvents, hr, Signal.passes, hname, if_true] at h
        cases h
        exact .sees feed tick sighting hub hlead hh hr hname
      | false =>
        simp only [stepEvents, hr, Signal.passes, hname, Bool.false_eq_true, if_false] at h
        cases h
        exact .overlooks feed tick sighting hub hlead hh hr hname
    | error fault =>
      simp only [stepEvents, hr, Signal.passes, if_true] at h
      cases h
      exact .resyncs feed tick fault hub _ hlead hh hr
  · simp only [stepEvents, hr] at h
    cases h
    exact .outlives feed tick hub _ hlead hh hr
  · simp only [stepEvents, hr] at h
    exact moves_of_ticking hlead hh h

theorem stepLead_moves {s next : Supervision} (h : s.stepLead = some next) :
    s.LeadMoves next := by
  unfold stepLead at h
  split at h
  next => cases h
  next hlead =>
    cases h
    exact .asks hlead
  next call deadline hlead =>
    unfold stepOpening at h
    split at h
    next reply hcall =>
      cases h
      cases reply with
      | granted => exact .begins call deadline hlead hcall
      | refused refusal => exact .givesUp call deadline _ hlead
      | crashed => exact .breaks call deadline _ hlead
    next waiting hcall =>
      split at h
      · cases h
        exact .givesUp call deadline _ hlead
      · split at h
        · cases h
        · cases h
          exact .waits call waiting deadline hlead hcall
  next feed streaming tick hlead =>
    unfold stepLeading at h
    split at h
    next hh =>
      cases h
      exact .stops feed tick streaming _ hlead hh
    next hn =>
      have hh : s.site.halted = false := by simpa using hn
      split at h
      next key rest hexits =>
        cases h
        exact .reports feed tick streaming key rest hlead hh hexits
      next =>
        cases streaming with
        | true =>
          rw [if_pos rfl] at h
          exact moves_of_events hlead hh h
        | false =>
          rw [if_neg Bool.false_ne_true] at h
          exact moves_of_ticking hlead hh h
  next hlead =>
    unfold stepJoining at h
    split at h
    next hover =>
      cases h
      exact .joins hlead hover
    next => cases h
  next => cases h
  next => cases h

end Supervision

end AddonWatch

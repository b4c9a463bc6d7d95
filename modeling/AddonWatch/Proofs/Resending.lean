import AddonWatch.Proofs.Minding

namespace AddonWatch

namespace Supervision

variable {s next : Supervision}

theorem HandsOut.isOver {old new : Supervision} {more : Nat → List Work} (h : old.HandsOut new more)
    (i : Nat) : new.desks[i]?.map Desk.isOver = old.desks[i]?.map Desk.isOver := by
  rw [h.desks]
  cases old.desks[i]? <;> rfl

theorem HandsOut.handed {old new : Supervision} {more : Nat → List Work} (h : old.HandsOut new more)
    (text : String) (i : Nat) : new.handed text i = old.handed text i := by
  unfold Supervision.handed
  rw [h.partition, h.isOver]

theorem handsOut_dispatches (s : Supervision) (texts : List String) :
    s.HandsOut (texts.foldl dispatch s) fun i => texts.flatMap (s.handed · i) := by
  induction texts generalizing s with
  | nil => exact .refl s
  | cons text rest ih =>
    have hfirst := s.handsOut_dispatch text
    have hrest := ih (s.dispatch text)
    simp only [hfirst.handed] at hrest
    exact hfirst.trans hrest

theorem HandsOut.exits {old new : Supervision} {more : Nat → List Work}
    (h : old.HandsOut new more) : new.site.exits = old.site.exits := by
  obtain ⟨trace, he⟩ := h.site
  rw [he]

/-- The texts of the stored addons that are recognised. -/
def listed (s : Supervision) : List String :=
  ((s.site.hub.addons.map Addon.objectName).filter fun q => s.names.contains q.name).map
    ObjectName.text

/-- What a resync adds to the inbox of a desk that is not over: the stored addons of its partition
that are recognised, and behind them the look at its own watchers. -/
def resent (s : Supervision) (i : Nat) : List Work :=
  if (s.desks[i]?.map Desk.isOver).getD true then []
  else (s.listed.filter (s.partition · = i)).map .sync ++ [.resync]

theorem handsOut_desks (s : Supervision) : s.HandsOut s.resyncDesks fun i =>
    if (s.desks[i]?.map Desk.isOver).getD true then [] else [.resync] := by
  refine ⟨rfl, rfl, rfl, ⟨_, rfl⟩, rfl, by simp [resyncDesks], fun i => ?_, fun i key hm => ?_⟩
  · simp only [resyncDesks, List.getElem?_map]
    cases s.desks[i]? with
    | none => rfl
    | some desk =>
      simp only [Option.map_some, Option.getD_some, Option.some.injEq]
      split <;> simp
  · split at hm <;> simp at hm

theorem flatMap_handed (s : Supervision) (texts : List String) (i : Nat) :
    texts.flatMap (s.handed · i) = if (s.desks[i]?.map Desk.isOver).getD true then []
      else (texts.filter (s.partition · = i)).map .sync := by
  induction texts with
  | nil => simp
  | cons text rest ih =>
    rw [List.flatMap_cons, ih]
    unfold Supervision.handed
    by_cases hi : s.partition text = i
    · cases (s.desks[i]?.map Desk.isOver).getD true <;> simp [hi]
    · have hne : ¬i = s.partition text := fun h => hi h.symm
      simp [hi, hne]

theorem handsOut_resent (s : Supervision) : s.HandsOut s.resync s.resent := by
  have hfirst := s.handsOut_dispatches s.listed
  have hlast := (s.listed.foldl dispatch s).handsOut_desks
  have hresync : s.resync = (s.listed.foldl dispatch s).resyncDesks := by
    unfold resync listed
    rw [List.foldl_map]
  have hboth := hfirst.trans hlast
  rw [← hresync] at hboth
  have hsame : s.resent = fun i => s.listed.flatMap (s.handed · i) ++
      if ((s.listed.foldl dispatch s).desks[i]?.map Desk.isOver).getD true then []
      else [.resync] := by
    funext i
    rw [hfirst.isOver, flatMap_handed]
    unfold resent
    split <;> simp
  rw [hsame]
  exact hboth

theorem recognised_of_resent {i : Nat} {text : String} (h : .sync text ∈ s.resent i) :
    ∃ q : ObjectName, q.name ∈ s.names ∧ text = q.text := by
  unfold resent at h
  split at h
  · simp at h
  · simp only [List.mem_append, List.mem_map, Work.sync.injEq, exists_eq_right,
      List.mem_singleton, reduceCtorEq, or_false, List.mem_filter] at h
    obtain ⟨q, hq, rfl⟩ := List.mem_map.mp h.1
    exact ⟨q, List.contains_iff_mem.mp (List.mem_filter.mp hq).2, rfl⟩

/-- What the leading task sends to the desks are reports of watchers that ended by themselves, and
addons of recognised names. -/
theorem LeadMoves.sent (h : s.LeadMoves next) :
    (∃ call deadline, s.lead = .opening call deadline ∧ next = s.begin) ∨
      ∃ more, s.Sends next more ∧ ∀ i text, .sync text ∈ more i →
        text ∈ s.site.exits ∨ ∃ q : ObjectName, q.name ∈ s.names ∧ text = q.text := by
  have hhanded : ∀ {mid : Supervision} {text : String} i other, .sync other ∈ mid.handed text i →
      other = text := by
    intro mid text i other hm
    unfold Supervision.handed at hm
    split at hm
    · simpa using hm
    · simp at hm
  cases h with
  | begins call deadline hlead => exact .inl ⟨call, deadline, hlead, rfl⟩
  | reports feed tick streaming key rest hlead hh hexits =>
    refine .inr ⟨_, .of_handsOut (handsOut_dispatch _ key) rfl rfl rfl, fun i text hm => .inl ?_⟩
    rw [hhanded i text hm, hexits]
    exact List.mem_cons_self
  | sees feed tick sighting hub hlead hh hr hname =>
    refine .inr ⟨_, .of_handsOut (handsOut_dispatch _ sighting.object.text) rfl rfl rfl,
      fun i text hm => .inr ⟨sighting.object, List.contains_iff_mem.mp hname, hhanded i text hm⟩⟩
  | resyncs feed tick fault hub text =>
    have hout := handsOut_resent (({ s with site := { s.site with hub := hub } } :
      Supervision).log .warn text)
    refine .inr ⟨_, .of_handsOut hout rfl rfl rfl, fun i other hm => .inr ?_⟩
    have hq := recognised_of_resent hm
    exact hq
  | ticks =>
    have hs : s.Sends s.resync s.resent := .of_handsOut (handsOut_resent s) rfl rfl rfl
    exact .inr ⟨_, ⟨hs.route, hs.names, hs.length, hs.desks, hs.owned⟩,
      fun i text hm => .inr (recognised_of_resent hm)⟩
  | joins =>
    have hs := Sends.of_handsOut (handsOut_reportCrashes s) rfl rfl rfl
    exact .inr ⟨_, ⟨hs.route, hs.names, hs.length, hs.desks, hs.owned⟩, fun i text hm => by
      simp at hm⟩
  | _ => exact .inr ⟨_, .keeps rfl rfl rfl, fun i text hm => by simp at hm⟩

/-- The leading task takes reports, and makes none. -/
theorem LeadMoves.exits (h : s.LeadMoves next) :
    ∀ text ∈ next.site.exits, text ∈ s.site.exits := by
  intro text ht
  cases h with
  | begins =>
    obtain ⟨hub, trace, lead, he, -⟩ := Orderly.begin_eq s
    rw [he] at ht
    exact ht
  | reports feed tick streaming key rest hlead hh hexits =>
    rw [(handsOut_dispatch _ key).exits] at ht
    exact hexits ▸ List.mem_cons_of_mem key ht
  | sees feed tick sighting hub =>
    rw [(handsOut_dispatch _ sighting.object.text).exits] at ht
    exact ht
  | resyncs =>
    rw [(handsOut_resent _).exits] at ht
    exact ht
  | ticks =>
    have he : s.resync.site.exits = s.site.exits := (handsOut_resent s).exits
    exact he ▸ ht
  | joins =>
    have he : s.reportCrashes.site.exits = s.site.exits := (handsOut_reportCrashes s).exits
    exact he ▸ ht
  | _ => exact ht

end Supervision

end AddonWatch

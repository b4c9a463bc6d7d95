import AddonWatch.Supervision
import AddonWatch.Proofs.SiteChildren

namespace AddonWatch

namespace Supervision

/-- Work was handed out: behind what an inbox held stands more work for its own partition, and
nothing else has changed but the marks. -/
structure HandsOut (old new : Supervision) (more : Nat → List Work) : Prop where
  route : new.route = old.route
  names : new.names = old.names
  lead : new.lead = old.lead
  site : ∃ trace, new.site = { old.site with trace := trace }
  writes : new.site.writes = old.site.writes
  length : new.desks.length = old.desks.length
  desks : ∀ i, new.desks[i]? =
    old.desks[i]?.map fun desk : Desk => { desk with inbox := desk.inbox ++ more i }
  owned : ∀ i key, .sync key ∈ more i → old.partition key = i

namespace HandsOut

theorem partition {old new : Supervision} {more : Nat → List Work} (h : old.HandsOut new more)
    (key : String) : new.partition key = old.partition key := by
  simp [Supervision.partition, h.route, h.length]

theorem hub {old new : Supervision} {more : Nat → List Work} (h : old.HandsOut new more) :
    new.site.hub = old.site.hub := by
  obtain ⟨trace, he⟩ := h.site
  rw [he]

protected theorem refl (s : Supervision) : s.HandsOut s fun _ => [] where
  route := rfl
  names := rfl
  lead := rfl
  site := ⟨_, rfl⟩
  writes := rfl
  length := rfl
  desks i := by cases s.desks[i]? <;> simp
  owned i key h := by simp at h

protected theorem trans {a b c : Supervision} {m n : Nat → List Work} (hab : a.HandsOut b m)
    (hbc : b.HandsOut c n) : a.HandsOut c fun i => m i ++ n i where
  route := hbc.route.trans hab.route
  names := hbc.names.trans hab.names
  lead := hbc.lead.trans hab.lead
  site := by
    obtain ⟨t, ht⟩ := hab.site
    obtain ⟨u, hu⟩ := hbc.site
    exact ⟨u, by rw [hu, ht]⟩
  writes := hbc.writes.trans hab.writes
  length := hbc.length.trans hab.length
  desks i := by
    rw [hbc.desks, hab.desks]
    cases a.desks[i]? <;> simp
  owned i key h := by
    rcases List.mem_append.mp h with hm | hn
    · exact hab.owned i key hm
    · exact (hab.partition key).symm.trans (hbc.owned i key hn)

end HandsOut

theorem handsOut_log (s : Supervision) (level : Level) (text : String) :
    s.HandsOut (s.log level text) fun _ => [] where
  route := rfl
  names := rfl
  lead := rfl
  site := ⟨_, rfl⟩
  writes := rfl
  length := rfl
  desks i := by cases h : s.desks[i]? <;> simp [log, h]
  owned i key h := by simp at h

/-- What a key adds to the inboxes: itself to that of its partition, unless the desk is over. -/
def handed (s : Supervision) (key : String) (i : Nat) : List Work :=
  if i = s.partition key ∧ (s.desks[i]?.map Desk.isOver).getD true = false then [.sync key] else []

theorem handsOut_dispatch (s : Supervision) (key : String) :
    s.HandsOut (s.dispatch key) (s.handed key) := by
  unfold dispatch
  dsimp only
  split
  next hover =>
    have hnone : s.handed key = fun _ => [] := by
      funext i
      unfold handed
      rw [if_neg]
      rintro ⟨rfl, ho⟩
      rw [ho] at hover
      cases hover
    rw [hnone]
    exact s.handsOut_log _ _
  next hopen =>
    refine ⟨rfl, rfl, rfl, ⟨_, rfl⟩, rfl, ?_, ?_, ?_⟩
    · simp [deliver]
    · intro i
      simp only [deliver, List.getElem?_modify]
      by_cases hi : i = s.partition key
      · subst hi
        have : s.handed key (s.partition key) = [.sync key] := by
          unfold handed
          rw [if_pos ⟨rfl, by simpa using hopen⟩]
        rw [this]
        simp
      · have : s.handed key i = [] := by
          unfold handed
          rw [if_neg (fun h => hi h.1)]
        have hne : s.partition key ≠ i := fun h => hi h.symm
        rw [this]
        cases s.desks[i]? <;> simp [hne]
    · intro i other hm
      unfold handed at hm
      split at hm
      next h =>
        cases List.mem_singleton.mp hm
        exact h.1.symm
      next => simp at hm

theorem handsOut_resyncDesks (s : Supervision) : ∃ more, s.HandsOut s.resyncDesks more := by
  refine ⟨fun i => if (s.desks[i]?.map Desk.isOver).getD true then [] else [.resync],
    rfl, rfl, rfl, ⟨_, rfl⟩, rfl, ?_, ?_, ?_⟩
  · simp [resyncDesks]
  · intro i
    simp only [resyncDesks, List.getElem?_map]
    cases s.desks[i]? with
    | none => rfl
    | some desk =>
      simp only [Option.map_some, Option.getD_some, Option.some.injEq]
      split <;> simp
  · intro i key hm
    split at hm <;> simp at hm

theorem handsOut_foldl {α : Type} (f : Supervision → α → Supervision)
    (hf : ∀ s item, ∃ more, HandsOut s (f s item) more) (items : List α) (s : Supervision) :
    ∃ more, s.HandsOut (items.foldl f s) more := by
  induction items generalizing s with
  | nil => exact ⟨_, .refl s⟩
  | cons item items ih =>
    obtain ⟨m, hm⟩ := hf s item
    obtain ⟨n, hn⟩ := ih (f s item)
    exact ⟨_, hm.trans hn⟩

theorem handsOut_resync (s : Supervision) : ∃ more, s.HandsOut s.resync more := by
  obtain ⟨m, hm⟩ := handsOut_foldl (fun s q => s.dispatch q.text)
    (fun s q => ⟨_, s.handsOut_dispatch q.text⟩)
    ((s.site.hub.addons.map Addon.objectName).filter fun q => s.names.contains q.name) s
  obtain ⟨n, hn⟩ := handsOut_resyncDesks
    (((s.site.hub.addons.map Addon.objectName).filter fun q => s.names.contains q.name).foldl
      (fun s q => s.dispatch q.text) s)
  exact ⟨_, hm.trans hn⟩

theorem handsOut_reportCrash (s : Supervision) (e : Desk × Nat) :
    s.HandsOut (s.reportCrash e) fun _ => [] := by
  unfold reportCrash
  split
  · exact s.handsOut_log _ _
  · exact .refl s

/-- To say which desks have broken down is to hand out nothing. -/
theorem handsOut_reportCrashes (s : Supervision) : s.HandsOut s.reportCrashes fun _ => [] := by
  unfold reportCrashes
  generalize s.desks.zipIdx = numbered
  induction numbered generalizing s with
  | nil => exact .refl s
  | cons e rest ih => exact (s.handsOut_reportCrash e).trans (ih _)

end Supervision

end AddonWatch

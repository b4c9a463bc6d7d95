import AddonWatch.Proofs.KeepingUp
import AddonWatch.Proofs.Telling

namespace AddonWatch

/-- The answer to the write that is under way is of that kind. -/
def Follower.Expects (p : Reply → Prop) (f : Follower) : Prop :=
  ∀ write, f.phase = .writing write → write.call.act.Gives p

theorem Follower.Moves.expects {p : Reply → Prop} {f : Follower} {i : Nat} {site next : Site}
    {result : Follower ⊕ Ending} (h : f.Moves i site next result) (hs : site.hub.writes.Gives p)
    (hf : f.Expects p) : next.hub.writes.Gives p ∧ ∀ f', result = .inl f' → f'.Expects p := by
  refine ⟨?_, ?_⟩
  · cases h with
    | sights sighting hub hphase hr =>
      obtain ⟨_, _, -, -, rfl⟩ := Hub.receive_signal hr
      exact hs
    | misses fault hub text hphase hr =>
      obtain ⟨_, _, -, -, rfl⟩ := Hub.receive_signal hr
      exact hs
    | skips next remark hphase hpos hplan hnext =>
      rcases hnext with rfl | ⟨text, rfl⟩ <;> exact hs
    | begins => exact hs.take.2
    | _ => exact hs
  · rintro f' rfl write hw
    rcases h.writing hw with ⟨old, call, hphase, hcall, rfl⟩ | ⟨-, hact, -⟩
    · exact ((hf old hphase).advance site.now old.call.due).2 call hcall
    · rw [hact]
      exact hs.take.1

theorem Desk.Moves.script {desk desk' : Desk} {isSealed : Bool} {site site' : Site}
    (h : desk.Moves isSealed site site' desk') : site'.hub.writes = site.hub.writes := by
  rcases h.effect with hw | ⟨_, _, _, _, _, _, -, hm, hw⟩
  · exact hw.hub.writes
  · rcases hm.effect with ⟨mid, hmid, rfl | ⟨key, reference, rfl⟩⟩ | ⟨key, attempt, -, hbegun⟩
    · exact hw.hub.writes.trans hmid.hub.writes
    · exact hw.hub.writes.trans hmid.hub.writes
    · exact hw.hub.writes.trans hbegun.hub.writes

namespace Supervision

theorem LeadMoves.script {s next : Supervision} (h : s.LeadMoves next) :
    next.site.hub.writes = s.site.hub.writes := by
  rcases h.hub with hsheds | hsheds | ⟨feed, streaming, tick, signal, hlead, hr⟩
  · exact hsheds.writes
  · exact hsheds.writes
  · obtain ⟨_, rest, -, -, he⟩ := Hub.receive_signal hr
    rw [he]

/-- The writes to come, and those under way, get answers of that kind. -/
structure Expects (p : Reply → Prop) (s : Supervision) : Prop where
  script : s.site.hub.writes.Gives p
  bodies : ∀ (i : Nat) (f : Follower), s.site.bodies[i]? = some (.guarded f) → f.Expects p

theorem Reached.expects {w : Surroundings} {p : Reply → Prop}
    (hadmits : ∀ hub, w.admits hub → hub.writes.Gives p)
    (hallows : ∀ site hub, w.allows site hub → hub.writes.Gives p) {s : Supervision}
    (h : s.Reached w) : s.Expects p := by
  induction h using Reached.induct with
  | start s hf ha => exact ⟨hadmits _ ha, fun i f hb => by simp [Site.bodies, hf.children] at hb⟩
  | child s site i child f hr hr' hc hrun hb hm ih =>
    have hown := ih.bodies i f (Site.getElem?_bodies.mpr ⟨child, hc, hb⟩)
    refine ⟨?_, fun j g hg => ?_⟩
    · rcases hm.hub with hsheds | ⟨after, result, -, hgo, hsheds⟩
      · exact hsheds.writes ▸ ih.script
      · exact hsheds.writes ▸ (hgo.expects ih.script hown).1
    · rcases hm.bodies hc hb with he | ⟨after, f', hgo, he⟩
      · exact ih.bodies j g (he ▸ hg)
      · rcases getElem?_set_body he hg with ⟨-, rfl⟩ | hold
        · exact (hgo.expects ih.script hown).2 _ rfl
        · exact ih.bodies j g hold
  | desk s site i desk desk' hr hr' hd hm ih =>
    refine ⟨hm.script ▸ ih.script, fun j g hg => ?_⟩
    rcases hm.bodies with he | ⟨text, key, attempt, rest, -, he⟩
    · exact ih.bodies j g (he ▸ hg)
    · rcases getElem?_append_body he hg with hold | ⟨-, rfl⟩
      · exact ih.bodies j g hold
      · exact fun write hw => by cases hw
  | lead s next hr hr' hm ih => exact ⟨hm.script ▸ ih.script, hm.bodies ▸ ih.bodies⟩
  | hub s hub hr hr' ha ih => exact ⟨hallows _ _ ha, ih.bodies⟩
  | time s moment hr hr' ht ih => exact ⟨ih.script, ih.bodies⟩
  | halt s hr hr' ih => exact ⟨ih.script, ih.bodies⟩

end Supervision

end AddonWatch

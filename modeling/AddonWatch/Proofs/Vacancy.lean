import AddonWatch.Proofs.Shutdown

namespace AddonWatch

/-- The desk has no work at hand, in its inbox or behind an alarm. -/
structure Desk.IsVacant (desk : Desk) : Prop where
  inbox : desk.inbox = []
  alarms : desk.alarms.entries = []
  idle : ∀ keys, desk.phase ≠ .working keys
  free : ∀ text work rest, desk.phase ≠ .reconciling text work rest

namespace Desk

theorem isVacant_fresh (arrangement : Arrangement) (start : Nat) :
    ({ arrangement := arrangement, alarms := { start := start } } : Desk).IsVacant :=
  ⟨rfl, rfl, by simp, by simp⟩

theorem IsVacant.alarms_of_pop {desk : Desk} {found : Option Alarm} {alarms : Alarms} {now : Nat}
    (h : desk.IsVacant) (hk : desk.KeepsRetries) (hp : desk.alarms.pop now = (found, alarms)) :
    found = none ∧ alarms.entries = [] := by
  have hperm := (Alarms.pop_perm hk.numbered hp).2
  rw [h.alarms] at hperm
  obtain ⟨hnone, hrest⟩ := List.append_eq_nil_iff.mp hperm.symm.eq_nil
  exact ⟨by simpa using hnone, hrest⟩

/-- A desk to which no work comes stays without, and starts no watcher. -/
theorem Moves.isVacant {desk desk' : Desk} {isSealed : Bool} {site site' : Site}
    (h : desk.Moves isSealed site site' desk') (hk : desk.KeepsRetries) (hv : desk.IsVacant) :
    desk'.IsVacant ∧ site'.bodies = site.bodies := by
  cases h with
  | closes alarms hphase hend hp =>
    have halarms : alarms.entries = [] := by
      rcases hp with rfl | hp
      · exact hv.alarms
      · exact (hv.alarms_of_pop hk hp).2
    exact ⟨⟨hv.inbox, halarms, by simp, by simp⟩, (Closing.start_windsDown _ _ _).bodies⟩
  | wakes alarm alarms hphase hh hp =>
    have hnone := (hv.alarms_of_pop hk hp).1
    cases hnone
  | takes key rest alarms hphase hh hp hi =>
    rw [hv.inbox] at hi
    cases hi
  | looks rest alarms hphase hh hp hi =>
    rw [hv.inbox] at hi
    cases hi
  | turns alarms hphase hh hp =>
    exact ⟨⟨hv.inbox, (hv.alarms_of_pop hk hp).2, by simp [hphase], by simp [hphase]⟩, rfl⟩
  | rests hphase => exact absurd hphase (hv.idle _)
  | begins key rest hphase => exact absurd hphase (hv.idle _)
  | drops hh hphase =>
    rcases hphase with ⟨keys, hphase⟩ | ⟨key, work, rest, hphase⟩
    · exact absurd hphase (hv.idle keys)
    · exact absurd hphase (hv.free key work rest)
  | goesOn key work work' rest next roster hphase => exact absurd hphase (hv.free key work rest)
  | concludes key work rest next after roster verdict desk' hphase =>
    exact absurd hphase (hv.free key work rest)
  | settles closing closing' next hphase hc =>
    exact ⟨⟨hv.inbox, hv.alarms, by simp, by simp⟩, (Closing.step_windsDown hc).bodies⟩
  | finishes closing next hphase hc =>
    exact ⟨⟨rfl, hv.alarms, by simp, by simp⟩, (Closing.step_windsDown hc).bodies⟩

end Desk

namespace Supervision

/-- While no work is handed out although the scope stands, no watcher was ever started and no desk
has any work. -/
def IsVacant (s : Supervision) : Prop :=
  s.isSealed = true → s.site.halted = false →
    s.site.bodies = [] ∧ ∀ desk ∈ s.desks, desk.IsVacant

variable {w : Surroundings} {s next : Supervision}

theorem Orderly.isVacant_of_isUnopened (h : s.Orderly) (hu : s.IsUnopened) :
    s.site.bodies = [] ∧ ∀ desk ∈ s.desks, desk.IsVacant := by
  obtain ⟨hdesks, hchildren⟩ := h.unopened hu
  exact ⟨by simp [Site.bodies, hchildren], by simp [hdesks]⟩

theorem IsVacant.lead (hr : s.Reached w) (hm : s.LeadMoves next) : next.IsVacant := by
  intro hseal hh
  have ho := hr.orderly
  have hleading : ∀ {mid : Supervision} {more : Nat → List Work} {feed : Nat} {tick : Span}
      {streaming : Bool}, mid.HandsOut next more → mid.lead = .leading feed streaming tick →
        next.site.bodies = [] ∧ ∀ desk ∈ next.desks, desk.IsVacant := by
    intro mid more feed tick streaming hout hlead
    rw [isSealed_of_leading (hout.lead.trans hlead)] at hseal
    cases hseal
  cases hm with
  | asks hlead => exact ho.isVacant_of_isUnopened (.inl hlead)
  | waits call waiting deadline hlead =>
    exact ho.isVacant_of_isUnopened (.inr ⟨call, deadline, hlead⟩)
  | begins call deadline hlead =>
    obtain ⟨hbodies, -⟩ := ho.isVacant_of_isUnopened (.inr ⟨call, deadline, hlead⟩)
    obtain ⟨hub, trace, lead, he, -⟩ := Orderly.begin_eq s
    rw [he]
    refine ⟨hbodies, fun desk hd => ?_⟩
    obtain rfl := List.eq_of_mem_replicate hd
    exact Desk.isVacant_fresh _ _
  | givesUp call deadline verdict hlead =>
    exact ho.isVacant_of_isUnopened (.inr ⟨call, deadline, hlead⟩)
  | breaks call deadline message hlead =>
    exact ho.isVacant_of_isUnopened (.inr ⟨call, deadline, hlead⟩)
  | stops feed tick streaming text hlead hhalted =>
    have hstill : s.site.halted = false := hh
    rw [hhalted] at hstill
    cases hstill
  | reports feed tick streaming key rest hlead =>
    exact hleading (handsOut_dispatch _ key) hlead
  | sees feed tick sighting hub hlead =>
    exact hleading (handsOut_dispatch _ sighting.object.text) hlead
  | overlooks feed tick sighting hub hlead =>
    have hopen : s.isSealed = true := hseal
    rw [isSealed_of_leading hlead] at hopen
    cases hopen
  | resyncs feed tick fault hub text hlead =>
    obtain ⟨more, hout⟩ := handsOut_resync
      (({ s with site := { s.site with hub := hub } } : Supervision).log .warn text)
    exact hleading hout hlead
  | outlives => cases hseal
  | ticks => cases hseal
  | joins hlead =>
    have hhalted := hr.windsUp.joining hlead
    obtain ⟨trace, he⟩ := (handsOut_reportCrashes s).site
    have hstill : s.reportCrashes.site.halted = false := hh
    rw [he, hhalted] at hstill
    cases hstill

theorem Reached.isVacant (h : s.Reached w) : s.IsVacant := by
  induction h using Reached.induct with
  | start s hf ha =>
    exact fun _ _ => ⟨by simp [Site.bodies, hf.children], by simp [hf.desks]⟩
  | child s site i child f hr hr' hc hrun hb hm ih =>
    intro hseal hh
    obtain ⟨hbodies, -⟩ := ih hseal ((hm.ages hc hb).halted ▸ hh)
    have hbody := Site.getElem?_bodies.mpr ⟨child, hc, hb⟩
    simp [hbodies] at hbody
  | desk s site i desk desk' hr hr' hd hm ih =>
    intro hseal hh
    obtain ⟨hbodies, hvacant⟩ := ih hseal (hm.grows.halted hh)
    obtain ⟨hdesk, hsame⟩ := hm.isVacant (hr.orderly.desks i desk hd).retries
      (hvacant desk (List.mem_of_getElem? hd))
    refine ⟨hsame.trans hbodies, fun other ho => ?_⟩
    rcases List.mem_or_eq_of_mem_set ho with hold | rfl
    · exact hvacant other hold
    · exact hdesk
  | lead s next hr hr' hm ih => exact .lead hr hm
  | hub s hub hr hr' ha ih => exact ih
  | time s moment hr hr' ht ih => exact ih
  | halt s hr hr' ih => exact fun _ hh => by cases hh

/-- As long as a child lives, work is handed out. -/
theorem Reached.unsealed_of_live (h : s.Reached w) {i : Nat} {a : Assignment}
    (hl : s.site.Live i a) : s.isSealed = false := by
  by_contra hn
  obtain ⟨hbodies, -⟩ := h.isVacant (by simpa using hn) hl.1
  have hlen := hl.lt_length
  rw [← List.length_map (f := Child.body), ← Site.bodies, hbodies] at hlen
  exact absurd hlen (Nat.not_lt_zero _)

end Supervision

end AddonWatch

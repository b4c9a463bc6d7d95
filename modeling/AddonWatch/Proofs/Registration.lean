import AddonWatch.Proofs.DeskOrder

namespace AddonWatch

namespace Supervision

/-- The step of a child is the move of a watcher that has not ended yet. -/
theorem stepChild_moves {s next : Supervision} {i : Nat} (h : s.stepChild i = some next)
    (hs : s.site.Staffed) : ∃ site child f, next = { s with site := site } ∧
      s.site.children[i]? = some child ∧ child.body = .guarded f ∧ child.condition = .running ∧
      s.site.ChildMoves i child f site := by
  obtain ⟨site, hstep, he⟩ := stepChild_cases h
  obtain ⟨child, hc, hrun, hm⟩ := Site.stepChild_moves hstep
  obtain ⟨f, hb⟩ := hs.guarded hc
  exact ⟨site, child, f, he, hc, hb, hrun, hm f hb⟩

/-- The addon stream has not been opened yet. -/
def IsUnopened (s : Supervision) : Prop :=
  s.lead = .fresh ∨ ∃ call deadline, s.lead = .opening call deadline

/-- Every desk holds what is of its partition, and every live child is registered at the desk that
its key belongs to, as long as that desk stands. -/
structure Orderly (s : Supervision) : Prop where
  unopened : s.IsUnopened → s.desks = [] ∧ s.site.children = []
  reports : s.site.reportsExits = true
  staffed : s.site.Staffed
  desks : ∀ i (desk : Desk), s.desks[i]? = some desk →
    desk.Orderly s.site fun text => s.partition text = i
  registered : ∀ i a, s.site.Live i a →
    ∃ desk : Desk, s.desks[s.partition a.key.text]? = some desk ∧ desk.Registers i a
  single : ∀ i j a b, s.site.Live i a → s.site.Live j b → a.key = b.key → i = j

namespace Orderly

variable {s next : Supervision}

theorem of_isFresh (h : s.IsFresh) : s.Orderly where
  unopened _ := ⟨h.desks, h.children⟩
  reports := h.reports
  staffed i hi := by simp [h.children] at hi
  desks i desk hd := by simp [h.desks] at hd
  registered i a hl := by
    have := hl.lt_length
    simp [h.children] at this
  single i j a b hl := by
    have := hl.lt_length
    simp [h.children] at this

theorem append_inbox {desk : Desk} {site : Site} {mine : String → Prop} {more : List Work}
    (h : desk.Orderly site mine) (hmore : ∀ text, .sync text ∈ more → mine text) :
    ({ desk with inbox := desk.inbox ++ more } : Desk).Orderly site mine :=
  { h with
    retries := h.retries.congr rfl rfl
    inbox := fun text ht => by
      rcases List.mem_append.mp ht with hold | hnew
      · exact h.inbox text hold
      · exact hmore text hnew }

/-- Desks that only find more work of their own in their inboxes stay in order, while no child is
started or revived. -/
theorem sends {more : Nat → List Work} (h : s.Orderly) (hs : s.Sends next more)
    (hg : s.site.Grows next.site)
    (hsize : next.site.children.length = s.site.children.length)
    (hlead : next.IsUnopened → s.IsUnopened) : next.Orderly := by
  have hlive : ∀ i a, next.site.Live i a → s.site.Live i a := by
    intro i a hl
    exact hg.live i a (hsize ▸ hl.lt_length) hl
  refine ⟨fun hu => ?_, hg.reports.trans h.reports, fun i hi => ?_, fun i desk hd => ?_,
    fun i a hl => ?_, fun i j a b hi hj => h.single i j a b (hlive i a hi) (hlive j b hj)⟩
  · obtain ⟨hd, hc⟩ := h.unopened (hlead hu)
    exact ⟨List.eq_nil_of_length_eq_zero (by simp [hs.length, hd]),
      List.eq_nil_of_length_eq_zero (by simp [hsize, hc])⟩
  · have hlt : i < s.site.children.length := hsize ▸ hi
    obtain ⟨a, ha⟩ := h.staffed i hlt
    exact ⟨a, (hg.assignment i hlt).trans ha⟩
  · rw [hs.desks] at hd
    obtain ⟨old, ho, rfl⟩ := Option.map_eq_some_iff.mp hd
    simp only [hs.partition_eq]
    exact append_inbox ((h.desks i old ho).grows hg) (hs.owned i)
  · obtain ⟨desk, hd, hr⟩ := h.registered i a (hlive i a hl)
    refine ⟨{ desk with inbox := desk.inbox ++ more (s.partition a.key.text) }, ?_, hr⟩
    rw [hs.partition_eq, hs.desks, hd]
    rfl

theorem fresh_desk (arrangement : Arrangement) (start : Nat) (site : Site) (mine : String → Prop) :
    ({ arrangement := arrangement, alarms := { start := start } } : Desk).Orderly site mine where
  retries := {
    numbered := ⟨List.nodup_nil, fun e he => by simp [Alarms.entries] at he⟩
    alarmed := fun key retry id hl => by simp at hl }
  inbox text h := by simp at h
  alarms e h := by simp [Alarms.entries] at h
  texts text h := by simp [DeskPhase.texts] at h
  nodup := List.nodup_nil
  entries e h := by simp at h
  work text work rest h := by simp at h

theorem begin_eq (s : Supervision) :
    ∃ hub trace lead, s.begin = { s with
      site := { s.site with hub := hub, trace := trace }
      desks := List.replicate (count s.site.settings)
        { arrangement := s.arrangement, alarms := { start := s.site.now } }
      lead := lead } ∧ ¬s.begin.IsUnopened := by
  unfold begin
  dsimp only
  split
  · exact ⟨_, _, _, rfl, by simp [IsUnopened]⟩
  · exact ⟨_, _, _, rfl, by simp [IsUnopened, log]⟩

theorem begins (h : s.Orderly) (hu : s.IsUnopened) : s.begin.Orderly := by
  obtain ⟨-, hchildren⟩ := h.unopened hu
  obtain ⟨hub, trace, lead, he, hopen⟩ := begin_eq s
  have hnone : ∀ i a, ¬s.begin.site.Live i a := by
    intro i a hl
    have := hl.lt_length
    simp [he, hchildren] at this
  refine ⟨fun hu => absurd hu hopen, ?_, ?_, fun i desk hd => ?_,
    fun i a hl => absurd hl (hnone i a), fun i j a b hl => absurd hl (hnone i a)⟩
  · rw [he]
    exact h.reports
  · rw [he]
    exact h.staffed
  · rw [he] at hd ⊢
    obtain rfl := List.eq_of_mem_replicate (List.mem_of_getElem? hd)
    exact fresh_desk _ _ _ _

theorem lead (h : s.Orderly) (hm : s.LeadMoves next) : next.Orderly := by
  rcases hm.desks with ⟨call, deadline, hlead, rfl⟩ | ⟨more, hs⟩
  · exact h.begins (.inr ⟨call, deadline, hlead⟩)
  · obtain ⟨hub, trace, exits, he, -⟩ := hm.shared
    have hg : s.site.Ages next.site := he ▸ .hub_trace s.site hub trace exits
    exact h.sends hs hg.grows hg.length hm.unopened

theorem child {i : Nat} (h : s.Orderly) (hs : s.stepChild i = some next) : next.Orderly := by
  obtain ⟨site, child, f, rfl, hc, hb, -, hm⟩ := stepChild_moves hs h.staffed
  have hages := hm.ages hc hb
  exact h.sends (.keeps rfl rfl rfl) hages.grows hages.length fun hu => hu

theorem desk {i : Nat} (h : s.Orderly) (hs : s.stepDesk i = some next) : next.Orderly := by
  obtain ⟨desk, desk', site, hd, hm, rfl⟩ := stepDesk_cases hs
  have hpart := s.partition_set_desk site i desk'
  have hown := h.desks i desk hd
  have hreg : ∀ j a, s.site.Live j a → s.partition a.key.text = i →
      desk.roster.get? a.key = some ⟨a.fingerprint, j⟩ := by
    intro j a hl hp
    obtain ⟨other, ho, hr⟩ := h.registered j a hl
    rw [hp] at ho
    obtain rfl : desk = other := Option.some.inj (hd.symm.trans ho)
    exact hr.resolve_left hm.not_down
  obtain ⟨roster, hkept, hlive⟩ := hm.registers hown hreg
  refine ⟨fun hu => ?_, hm.grows.reports.trans h.reports, hm.staffed h.staffed,
    fun j other ho => ?_, fun j a hl => ?_, fun j k a b hj hk he => ?_⟩
  · obtain ⟨hnil, -⟩ := h.unopened hu
    simp [hnil] at hd
  · simp only [hpart]
    rcases getElem?_set_desk hd ho with ⟨rfl, rfl⟩ | ⟨-, ho⟩
    · exact hm.orderly hown
    · exact (h.desks j other ho).grows hm.grows
  · obtain ⟨hr, hold⟩ := hlive j a hl
    rw [hpart]
    by_cases hp : s.partition a.key.text = i
    · refine ⟨desk', ?_, hkept.imp_right fun hroster : desk'.roster = roster => ?_⟩
      · rw [hp]
        exact List.getElem?_set_self (List.getElem?_eq_some_iff.mp hd).1
      · rw [hroster]
        exact hr hp
    · obtain ⟨other, ho, hro⟩ := h.registered j a (hold.resolve_right hp)
      refine ⟨other, ?_, hro⟩
      dsimp only
      rw [List.getElem?_set_ne (Ne.symm hp)]
      exact ho
  · by_cases hp : s.partition a.key.text = i
    · have hja := (hlive j a hj).1 hp
      have hkb := (hlive k b hk).1 (he ▸ hp)
      rw [← he, hja] at hkb
      exact congrArg Handle.child (Option.some.inj hkb)
    · exact h.single j k a b ((hlive j a hj).2.resolve_right hp)
        ((hlive k b hk).2.resolve_right (he ▸ hp)) he

theorem moves {w : Surroundings} (h : s.Orderly) (hm : s.Moves w next) : next.Orderly := by
  cases hm with
  | task t _ hs =>
    cases t with
    | child i => exact h.child hs
    | desk i => exact h.desk hs
    | lead => exact h.lead (stepLead_moves hs)
  | hub hub =>
    exact h.sends (.keeps rfl rfl rfl) (Site.Ages.hub_trace s.site hub _ _).grows rfl fun hu => hu
  | time moment =>
    exact h.sends (.keeps rfl rfl rfl) (.time s.site moment) rfl fun hu => hu
  | halt => exact h.sends (.keeps rfl rfl rfl) (.halt s.site) rfl fun hu => hu

end Orderly

/-- What holds of a desk that has just been set up, and does not depend on its inbox, goes on to
hold of all desks whatever the leading task does. -/
theorem LeadMoves.forall_desks {s next : Supervision} {p : Desk → Prop} (h : s.LeadMoves next)
    (hfresh : ∀ arrangement start, p { arrangement := arrangement, alarms := { start := start } })
    (hsent : ∀ (desk : Desk) more, p desk → p { desk with inbox := desk.inbox ++ more })
    (hs : ∀ desk ∈ s.desks, p desk) : ∀ desk ∈ next.desks, p desk := by
  rcases h.desks with ⟨call, deadline, -, rfl⟩ | ⟨more, hsends⟩
  · intro desk hd
    obtain ⟨hub, trace, lead, he, -⟩ := Orderly.begin_eq s
    rw [he] at hd
    obtain rfl := List.eq_of_mem_replicate hd
    exact hfresh _ _
  · exact hsends.forall_desks hsent hs

theorem Reached.orderly {w : Surroundings} {s : Supervision} (h : s.Reached w) : s.Orderly := by
  induction h with
  | start s hf => exact .of_isFresh hf
  | next s s' _ hm ih => exact ih.moves hm

/-- The settings stay, time does not go back, and a cancelled scope stays cancelled. -/
structure Onward (old new : Site) : Prop where
  settings : new.settings = old.settings
  now : old.now ≤ new.now
  halted : old.halted = true → new.halted = true

theorem Onward.of_grows {old new : Site} (h : old.Grows new) (hnow : new.now = old.now) :
    Onward old new where
  settings := h.settings
  now := Nat.le_of_eq hnow.symm
  halted hh := by
    by_contra hne
    have hup := h.halted (by simpa using hne)
    rw [hh] at hup
    cases hup

theorem Reached.onward {w : Surroundings} {s next : Supervision} (h : s.Reached w)
    (hm : s.Moves w next) : Onward s.site next.site := by
  cases hm with
  | task t _ hstep =>
    cases t with
    | child i =>
      obtain ⟨site, c, f, rfl, hc, hb, -, hmoves⟩ := stepChild_moves hstep h.orderly.staffed
      exact .of_grows (hmoves.ages hc hb).grows hmoves.now
    | desk i =>
      obtain ⟨d, d', site, hd, hmoves, rfl⟩ := stepDesk_cases hstep
      exact .of_grows hmoves.grows hmoves.now
    | lead =>
      obtain ⟨hub, trace, exits, he, -⟩ := (stepLead_moves hstep).shared
      rw [he]
      exact ⟨rfl, Nat.le_refl _, id⟩
  | hub new ha => exact ⟨rfl, Nat.le_refl _, id⟩
  | time moment ht => exact ⟨rfl, ht, id⟩
  | halt => exact ⟨rfl, Nat.le_refl _, fun _ => rfl⟩

/-- What holds at the start, and goes on to hold when a watcher, a desk or the leading task takes a
step, when the hub changes, when time goes by and when the scope is cancelled, holds in every
run. -/
@[elab_as_elim]
theorem Reached.induct {w : Surroundings} {motive : ∀ s : Supervision, s.Reached w → Prop}
    (start : ∀ (s : Supervision) (hf : s.IsFresh) (ha : w.admits s.site.hub),
      motive s (.start s hf ha))
    (child : ∀ (s : Supervision) (site : Site) (i : Nat) (child : Child) (f : Follower)
      (hr : s.Reached w) (hr' : ({ s with site := site } : Supervision).Reached w),
      s.site.children[i]? = some child → child.condition = .running → child.body = .guarded f →
        s.site.ChildMoves i child f site → motive s hr → motive { s with site := site } hr')
    (desk : ∀ (s : Supervision) (site : Site) (i : Nat) (desk desk' : Desk) (hr : s.Reached w)
      (hr' : ({ s with site := site, desks := s.desks.set i desk' } : Supervision).Reached w),
      s.desks[i]? = some desk → desk.Moves s.isSealed s.site site desk' → motive s hr →
        motive { s with site := site, desks := s.desks.set i desk' } hr')
    (lead : ∀ (s next : Supervision) (hr : s.Reached w) (hr' : next.Reached w),
      s.LeadMoves next → motive s hr → motive next hr')
    (hub : ∀ (s : Supervision) (hub : Hub) (hr : s.Reached w)
      (hr' : ({ s with site := { s.site with hub := hub } } : Supervision).Reached w),
      w.allows s.site hub → motive s hr → motive { s with site := { s.site with hub := hub } } hr')
    (time : ∀ (s : Supervision) (moment : Nat) (hr : s.Reached w)
      (hr' : ({ s with site := { s.site with now := moment } } : Supervision).Reached w),
      s.site.now ≤ moment → motive s hr →
        motive { s with site := { s.site with now := moment } } hr')
    (halt : ∀ (s : Supervision) (hr : s.Reached w)
      (hr' : ({ s with site := { s.site with halted := true } } : Supervision).Reached w),
      motive s hr → motive { s with site := { s.site with halted := true } } hr')
    {s : Supervision} (h : s.Reached w) : motive s h := by
  induction h with
  | start s hf ha => exact start s hf ha
  | next s s' hr hm ih =>
    have hr' := Reached.next s s' hr hm
    cases hm with
    | task t _ hstep =>
      cases t with
      | child i =>
        obtain ⟨site, c, f, rfl, hc, hb, hrun, hmoves⟩ :=
          stepChild_moves hstep hr.orderly.staffed
        exact child s site i c f hr hr' hc hrun hb hmoves ih
      | desk i =>
        obtain ⟨d, d', site, hd, hmoves, rfl⟩ := stepDesk_cases hstep
        exact desk s site i d d' hr hr' hd hmoves ih
      | lead => exact lead s s' hr hr' (stepLead_moves hstep) ih
    | hub new ha => exact hub s new hr hr' ha ih
    | time moment ht => exact time s moment hr hr' ht ih
    | halt => exact halt s hr hr' ih

end Supervision

end AddonWatch

import AddonWatch.Proofs.Drafts

namespace AddonWatch

namespace Site

/-- Whatever a cancelled watcher was at, its next step ends it, and lets go of its stream. -/
theorem stepChild_cancelled {site : Site} {i : Nat} {child : Child} {f : Follower}
    (hc : site.children[i]? = some child) (hb : child.body = .guarded f)
    (hr : child.condition = .running) (hn : site.isCancelled child = true) :
    site.stepChild i = some { site with
      hub := site.hub.releaseFeed f.feed
      children := site.children.modify i fun child => { child with condition := .returned } } := by
  have hfinish : site.finish i .returned = { site with
      hub := site.hub.releaseFeed f.feed
      children := site.children.modify i fun child => { child with condition := .returned } } := by
    simp [finish, setChild, hc, Child.feed?, Child.follower?, hb]
  have hf := getElem?_finish_self .returned hc
  have hn' : (site.finish i .returned).isCancelled { child with condition := .returned } = true :=
    hn
  rw [← hfinish]
  simp only [stepChild, hc, Option.bind_eq_bind, Option.bind_some, Child.isFinished, hr, hb, hn,
    Follower.step_cancelled, Option.map_some, endGuarded]
  rw [reportExit_of_cancelled hf hn']
  simp

theorem past_of_cancelled {site : Site} {i : Nat} {child : Child}
    (hc : site.children[i]? = some child) (hn : site.isCancelled child = true) : site.Past i := by
  refine ⟨(List.getElem?_eq_some_iff.mp hc).1, fun a hl => ?_⟩
  rw [(hl.running hc).2.1] at hn
  cases hn

end Site

namespace Supervision

variable {w : Surroundings} {s s' : Supervision}

theorem Orderly.grows (h : s.Orderly) (hm : s.Moves w s') : s.site.Grows s'.site := by
  cases hm with
  | task t _ hstep =>
    cases t with
    | child i =>
      obtain ⟨site, child, f, rfl, hc, hb, -, hmoves⟩ := stepChild_moves hstep h.staffed
      exact (hmoves.ages hc hb).grows
    | desk i =>
      obtain ⟨desk, desk', site, -, hmoves, rfl⟩ := stepDesk_cases hstep
      exact hmoves.grows
    | lead =>
      obtain ⟨hub, trace, exits, he, -⟩ := (stepLead_moves hstep).shared
      rw [he]
      exact (Site.Ages.hub_trace s.site hub trace exits).grows
  | hub hub => exact (Site.Ages.hub_trace s.site hub _ _).grows
  | time moment => exact .time s.site moment
  | halt => exact .halt s.site

/-- A step marks no write, or it is one of a child that runs on, which writes the status of its own
addon. -/
theorem Reached.writes_step (h : s.Reached w) {t : Task} (hstep : s.step t = some s') :
    s'.site.writes = s.site.writes ∨ ∃ i a addon, t = .child i ∧
      s'.site.writes = (some i, addon, s.site.now) :: s.site.writes ∧
      addon.objectName = a.key.objectName ∧ s.site.Live i a := by
  cases t with
  | child i =>
    obtain ⟨site, child, f, rfl, hc, hb, hr, hmoves⟩ := stepChild_moves hstep h.orderly.staffed
    rcases hmoves.writes with he | ⟨write, hphase, hn, he⟩
    · exact .inl he
    · right
      have hf := h.drafted (Site.getElem?_bodies.mpr ⟨child, hc, hb⟩)
      exact ⟨i, f.assignment, write.addon, rfl, he, hf.objectName hphase,
        .of_guarded hc hb hr hn⟩
  | desk i =>
    obtain ⟨desk, desk', site, -, hmoves, rfl⟩ := stepDesk_cases hstep
    exact .inl hmoves.writes
  | lead =>
    obtain ⟨-, -, -, -, hw⟩ := (stepLead_moves hstep).shared
    exact .inl hw

theorem Reached.writes_past (h : s.Reached w) {i : Nat} (hp : s.site.Past i)
    (hl : s.Later w s') : s'.site.Past i ∧
      (s'.site.writes.filter fun e => e.1 = some i) =
        s.site.writes.filter fun e => e.1 = some i := by
  induction hl with
  | refl => exact ⟨hp, rfl⟩
  | next mid s' hl hm ih =>
    have hmid := h.later hl
    refine ⟨(hmid.orderly.grows hm).past ih.1, Eq.trans ?_ ih.2⟩
    cases hm with
    | task t _ hstep =>
      rcases hmid.writes_step hstep with he | ⟨j, a, addon, -, he, -, hlive⟩
      · rw [he]
      · have hne : j ≠ i := by
          rintro rfl
          exact ih.1.2 a hlive
        rw [he, List.filter_cons_of_neg (by simpa using hne)]
    | _ => rfl

/-- Whatever a watcher is at, once it is cancelled its next step ends it: nothing is read, no signal
is taken, no write is begun or completed, and its stream has no reader any more; nor does it write
at any later time. So every write is made by a child that runs on for the addon written, and that is
registered for it at the desk that its key belongs to, unless that desk is down. -/
theorem cancelled_watcher_silent (h : s.Reached w) :
    (∀ (site : Site) (i : Nat) (child : Child) (f : Follower), site.children[i]? = some child →
      child.body = .guarded f → child.condition = .running → site.isCancelled child = true →
      site.stepChild i = some { site with
        hub := site.hub.releaseFeed f.feed
        children := site.children.modify i fun child => { child with condition := .returned } }) ∧
    (∀ (i : Nat) (child : Child) (later : Supervision), s.site.children[i]? = some child →
      s.site.isCancelled child = true → s.Later w later →
      (later.site.writes.filter fun e => e.1 = some i) =
        s.site.writes.filter fun e => e.1 = some i) ∧
    (∀ (t : Task) (next : Supervision), s.step t = some next →
      next.site.writes = s.site.writes ∨ ∃ (i : Nat) (a : Assignment) (addon : Addon),
        t = .child i ∧ next.site.writes = (some i, addon, s.site.now) :: s.site.writes ∧
          addon.objectName = a.key.objectName ∧ s.site.Live i a ∧
          (s.IsDown w (s.partition a.key.text) ∨
            ∃ desk : Desk, s.desks[s.partition a.key.text]? = some desk ∧
              desk.roster.get? a.key = some ⟨a.fingerprint, i⟩)) := by
  refine ⟨fun site i child f hc hb hr hn => Site.stepChild_cancelled hc hb hr hn,
    fun i child later hc hn hl => (h.writes_past (Site.past_of_cancelled hc hn) hl).2,
    fun t next hstep => ?_⟩
  rcases h.writes_step hstep with he | ⟨i, a, addon, ht, he, hname, hlive⟩
  · exact .inl he
  · exact .inr ⟨i, a, addon, ht, he, hname, hlive, h.registered hlive⟩

theorem writes_of_computed {s : Supervision} {p : Supervision → Bool}
    (h : ((s.step (.child 0)).any fun next =>
      s.site.writes.length < next.site.writes.length && p s) = true) :
    ∃ next, s.step (.child 0) = some next ∧ next.site.writes ≠ s.site.writes ∧ p s = true := by
  obtain ⟨next, hstep, h⟩ := (Option.any_eq_true ..).mp h
  simp only [Bool.and_eq_true, decide_eq_true_eq] at h
  exact ⟨next, hstep, fun he => by rw [he] at h; omega, h.2⟩

/-- The first addon is deleted. -/
def withoutFirst (s : Supervision) : Supervision :=
  { s with site := { s.site with
    hub := (s.site.hub.dropAddon ⟨some "ns", "a"⟩).announceAddon ⟨some "ns", "a"⟩ false } }

/-- The child has been cancelled while it waits for a write, as far as it can be computed. -/
def isCutOff (s : Supervision) (i : Nat) : Bool :=
  s.site.children[i]?.any fun child =>
    child.condition = .running && s.site.isCancelled child && match child.body with
      | .guarded f => match f.phase with
        | .writing _ => true
        | _ => false
      | _ => false

theorem of_isCutOff {s : Supervision} {i : Nat} (h : s.isCutOff i = true) :
    ∃ (child : Child) (f : Follower) (write : Write), s.site.children[i]? = some child ∧
      child.condition = .running ∧ s.site.isCancelled child = true ∧ child.body = .guarded f ∧
      f.phase = .writing write := by
  obtain ⟨child, hc, h⟩ := (Option.any_eq_true ..).mp h
  simp only [Bool.and_eq_true, decide_eq_true_eq] at h
  obtain ⟨⟨hr, hn⟩, h⟩ := h
  split at h
  next f hb =>
    split at h
    next write hphase => exact ⟨child, f, write, hc, hr, hn, hb, hphase⟩
    next => cases h
  next => cases h

/-- The watcher of the first addon completes its first write while it is registered. If the addon is
deleted just before, the watcher is cancelled at its write: its next step ends it, and it has
written nothing when its desk has let go of it. -/
theorem cancelled_watcher_silent_first :
    (∃ s next : Supervision, s.Reached .calm ∧
      s.step (.child 0) = some next ∧ next.site.writes ≠ s.site.writes ∧
      ∃ (a : Assignment) (desk : Desk), s.site.Live 0 a ∧ desk ∈ s.desks ∧
        desk.roster.get? a.key = some ⟨a.fingerprint, 0⟩) ∧
    ∃ (s later : Supervision) (child : Child) (f : Follower) (write : Write), s.Reached .calm ∧
      s.site.children[0]? = some child ∧ s.site.isCancelled child = true ∧
      child.body = .guarded f ∧ f.phase = .writing write ∧
      s.site.stepChild 0 = some { s.site with
        hub := s.site.hub.releaseFeed f.feed
        children := s.site.children.modify 0 fun child => { child with condition := .returned } } ∧
      s.Later .calm later ∧ later.site.isFinished 0 = true ∧
      (later.site.writes.filter fun e => e.1 = some 0) = [] := by
  obtain ⟨s, hs, hp⟩ := exists_of_play (opening 4 ++ [.child 0, .child 0]) sparing_reached
    (p := fun s => ((s.step (.child 0)).any fun next =>
        s.site.writes.length < next.site.writes.length && s.desks.all fun desk => !desk.isOver) &&
      s.isOpen && (s.withoutFirst.play (.lead :: List.replicate 4 (.desk 0))).any fun cut =>
        cut.isCutOff 0 && cut.site.writes = [] &&
          (cut.play [.child 0, .desk 0, .desk 0]).any fun later => later.site.isFinished 0)
    (by decide +kernel)
  simp only [Bool.and_eq_true] at hp
  obtain ⟨⟨hwrites, hopen⟩, hp⟩ := hp
  constructor
  · obtain ⟨next, hstep, hne, hup⟩ := writes_of_computed
      (p := fun s => s.desks.all fun desk => !desk.isOver) hwrites
    rcases (cancelled_watcher_silent hs).2.2 _ _ hstep with
      he | ⟨i, a, addon, hi, -, -, hl, hreg⟩
    · exact absurd he hne
    · cases hi
      obtain ⟨desk, hd, hreg⟩ := hreg.resolve_left (not_isDown hup _)
      exact ⟨s, next, hs, hstep, hne, a, desk, hl, List.mem_of_getElem? hd, hreg⟩
  · have hgone : s.withoutFirst.Reached .calm := hs.next _ _ (.hub _ (calm_of_isOpen hopen))
    obtain ⟨cut, hcut, hp⟩ := exists_of_play _ hgone hp
    simp only [Bool.and_eq_true, decide_eq_true_eq] at hp
    obtain ⟨⟨hoff, hnone⟩, hp⟩ := hp
    obtain ⟨child, f, write, hc, hr, hn, hb, hphase⟩ := of_isCutOff hoff
    obtain ⟨later, hplay, hended⟩ := (Option.any_eq_true ..).mp hp
    have hlater : cut.Later .calm later := Later.play .refl hplay
    obtain ⟨hends, hsilent, -⟩ := cancelled_watcher_silent hcut
    refine ⟨cut, later, child, f, write, hcut, hc, hn, hb, hphase,
      hends cut.site 0 child f hc hb hr hn, hlater, hended, ?_⟩
    rw [hsilent 0 child later hc hn hlater, hnone]
    rfl

/-- With its desk broken down, the watcher of the first addon goes on to write, although no watcher
is registered for the addon any more. -/
theorem unregistered_write : ∃ s next : Supervision, s.Reached .calm ∧
    s.step (.child 0) = some next ∧ next.site.writes ≠ s.site.writes ∧
    ∀ desk ∈ s.desks, desk.roster.entries = [] := by
  obtain ⟨s, hs, hp⟩ := exists_of_play (opening 9 ++ [.child 0, .child 0])
    overreaching_reached
    (p := fun s => (s.step (.child 0)).any fun next =>
      s.site.writes.length < next.site.writes.length &&
        s.desks.all fun desk => desk.roster.entries.isEmpty)
    (by decide +kernel)
  obtain ⟨next, hstep, hne, hempty⟩ := writes_of_computed
    (p := fun s => s.desks.all fun desk => desk.roster.entries.isEmpty) hp
  refine ⟨s, next, hs, hstep, hne, fun desk hd => ?_⟩
  simpa using List.all_eq_true.mp hempty desk hd

end Supervision

end AddonWatch

import AddonWatch.Proofs.DecisionTable
import AddonWatch.Proofs.Endings

namespace AddonWatch

theorem Handle.IsFor.key_eq {handle : Handle} {site : Site} {key : AddonKey} {a : Assignment}
    (h : handle.IsFor site key) (ha : site.assignment? handle.child = some a) : a.key = key := by
  obtain ⟨b, hb, hkey, -⟩ := h
  obtain rfl : b = a := Option.some.inj (hb.symm.trans ha)
  exact hkey

/-- What a poll leaves of a watcher that it does not concern. -/
theorem Reconciling.Moves.live_of_ne {work : Reconciling} {site next : Site}
    {roster roster' : Roster} {result : Reconciling ⊕ Verdict} {text : String} {i : Nat}
    {a : Assignment} (h : work.Moves site roster next roster' result)
    (hfit : work.Fits site roster text) (hentries : ∀ e ∈ roster.entries, e.2.IsFor site e.1)
    (hl : site.Live i a) (hne : a.key.text ≠ text) : next.Live i a := by
  have hother : ∀ {key : AddonKey} {handle : Handle} {other : String}, other = text →
      AddonKey.parse other = .ok key → roster.get? key = some handle → handle.child ≠ i := by
    rintro key handle _ rfl hp hg rfl
    have hkey : a.key = key := (hentries _ (Roster.mem_of_get? hg)).key_eq hl.assignment?
    exact hne (hkey ▸ (AddonKey.parse_eq_ok_iff.mp hp).1.symm)
  have hpast : ∀ {settling : Settling}, site.Past settling.handle.child →
      settling.handle.child ≠ i := by
    rintro settling hp rfl
    exact hp.2 a hl
  cases h with
  | stops other key handle line note hp hw hg =>
    exact (Site.live_fire_of_ne (hother hfit hp hg)).mpr hl
  | asks => exact hl
  | replaces other key addon reference handle trace hp ha hd hg =>
    exact (Site.live_fire_of_ne (hother hfit hp hg)).mpr hl
  | stopped settling _ hs => exact (hs.live_iff (hpast hfit)).mpr hl
  | replaced key addon reference settling after hs =>
    have hafter : after.Live i a := (hs.live_iff (hpast hfit.2.2.2.2)).mpr hl
    exact hafter
  | builds key attempt line note hcall =>
    have hbegun : (attempt.begin site).1.Live i a := Opening.live_begin_of_lt hl
    exact hbegun
  | _ => exact hl

/-- What a poll leaves registered of other keys. -/
theorem Reconciling.Moves.get?_of_text_ne {work : Reconciling} {site next : Site}
    {roster roster' : Roster} {result : Reconciling ⊕ Verdict} {text : String} {other : AddonKey}
    (h : work.Moves site roster next roster' result) (hfit : work.Fits site roster text)
    (hne : other.text ≠ text) : roster'.get? other = roster.get? other := by
  have hapart : ∀ {key : AddonKey} {read : String}, read = text →
      AddonKey.parse read = .ok key → other ≠ key := by
    rintro key _ rfl hp rfl
    exact hne (AddonKey.parse_eq_ok_iff.mp hp).1.symm
  cases h with
  | absent _ key hp => exact Roster.get?_erase_of_ne roster (hapart hfit hp)
  | stops _ key _ _ _ hp => exact Roster.get?_erase_of_ne roster (hapart hfit hp)
  | asks _ key _ _ hp => exact Roster.get?_erase_of_ne roster (hapart hfit hp)
  | replaces _ key _ _ _ _ hp => exact Roster.get?_erase_of_ne roster (hapart hfit hp)
  | builds key attempt =>
    refine Roster.get?_insert_of_ne roster _ ?_
    rintro rfl
    exact hne hfit.2.1.symm
  | _ => rfl

/-- How a notice reads that is told when the one object gives way to the other. -/
def Notice.wording (former? aim? : Option Fingerprint) (notice : Notice) : String :=
  let former := former?.elim "" Fingerprint.text
  let aim := aim?.elim "" Fingerprint.text
  match notice with
  | .started => "watching " ++ aim
  | .stopped => "stopped watching " ++ former
  | .changed => "config reference changed from " ++ former ++ " to " ++ aim

namespace Mark

def note? : Mark → Option (Notice × AddonKey × String)
  | .noted notice key text _ => some (notice, key, text)
  | _ => none

/-- If something is told, then in these words. -/
def IsWorded (former? aim? : Option Fingerprint) : Mark → Prop
  | .noted notice _ text _ => text = notice.wording former? aim?
  | _ => True

end Mark

namespace Site

variable {former? aim? : Option Fingerprint} {old new : Site}

/-- What is told from one site to the next, the latest first. -/
def notes (old new : Site) : List (Notice × AddonKey × String) :=
  (old.marksTo new).filterMap Mark.note?

/-- Where the words are known, it is enough to know of what is told. -/
theorem notes_of_worded (h : old.Leaves (Mark.IsWorded former? aim?) new) :
    old.notes new = (Effects.between old new).told.map fun t =>
      (t.1, t.2, t.1.wording former? aim?) := by
  obtain ⟨marks, ht, hmarks⟩ := h
  have htake : new.trace.take (new.trace.length - old.trace.length) = marks := by simp [ht]
  simp only [notes, marksTo, Effects.between, htake]
  clear htake ht
  induction marks with
  | nil => rfl
  | cons mark rest ih =>
    have hrest := ih fun m hm => hmarks m (List.mem_cons_of_mem _ hm)
    cases mark with
    | noted notice key text time =>
      have hworded : text = notice.wording former? aim? :=
        (hmarks _ List.mem_cons_self).resolve_left (by simp)
      simp only [List.filterMap_cons, Mark.note?, Mark.told?, List.map_cons, hrest, hworded]
    | _ => simpa only [List.filterMap_cons, Mark.note?, Mark.told?] using hrest

end Site

namespace Reconciling

variable {former? aim? : Option Fingerprint} {key : AddonKey} {roster roster' : Roster}
  {site next : Site} {work : Reconciling} {result : Reconciling ⊕ Verdict}

theorem stop_worded (key : AddonKey) (roster : Roster) (site : Site)
    (aim? : Option Fingerprint) : site.Leaves
      (Mark.IsWorded ((roster.get? key).map Handle.fingerprint) aim?)
      (stop key roster site).1 := by
  unfold stop Roster.remove
  cases hg : roster.get? key with
  | none => exact .nothing rfl
  | some handle => exact (Site.Leaves.log site _ _).trans (.mark (site.log _ _) rfl)

theorem replace_worded (key : AddonKey) (addon : Addon) (reference : Reference) (roster : Roster)
    (site : Site) : site.Leaves
      (Mark.IsWorded ((roster.get? key).map Handle.fingerprint) (some reference.fingerprint))
      (replace key addon reference roster site).1 := by
  unfold replace Roster.remove
  cases hg : roster.get? key with
  | none => exact .mark { site with hub := _ } trivial
  | some handle =>
    have htold : site.Leaves
        (Mark.IsWorded (some handle.fingerprint) (some reference.fingerprint))
        (announceReplacement key handle.fingerprint reference.fingerprint site) := by
      unfold announceReplacement
      split
      · exact .log site _ _
      · exact (Site.Leaves.log site _ _).trans (.mark (site.log _ _) rfl)
    exact htold.trans (.nothing rfl)

/-- The first poll tells what there is to tell in the words for the registered watcher and the
object that the addon points at. -/
theorem start_worded {text : String} (hp : AddonKey.parse text = .ok key) (roster : Roster)
    (site : Site) : site.Leaves
      (Mark.IsWorded ((roster.get? key).map Handle.fingerprint) (site.hub.pointed key))
      (start text roster site).1 := by
  unfold start
  simp only [hp]
  unfold decision
  cases ha : site.hub.addon? key.objectName with
  | none => exact stop_worded key roster site _
  | some addon =>
    cases hd : addon.desired with
    | none =>
      simp only [hd]
      exact stop_worded key roster site _
    | some reference =>
      have haim : site.hub.pointed key = some reference.fingerprint :=
        Hub.pointed_of_addon? ha hd
      cases hkeep : (roster.get? key).any (·.isCurrent site reference.fingerprint) with
      | true =>
        simp only [hd, hkeep, if_true]
        exact .nothing rfl
      | false =>
        simp only [hd, hkeep, Bool.false_eq_true, if_false, haim]
        exact replace_worded key addon reference roster site

/-- A later poll tells at most that the watcher was started that the call has been about. -/
theorem step_worded (h : work.step roster site = some (next, roster', result))
    (hnew : ∀ text, work ≠ .fresh text) (ha : work.Aims roster key aim?) :
    site.Leaves (Mark.IsWorded former? aim?) next ∧ ∀ work', result = .inl work' →
      (∀ text, work' ≠ .fresh text) ∧ work'.Aims roster' key aim? := by
  cases work with
  | fresh text => exact absurd rfl (hnew text)
  | stopping settling =>
    obtain ⟨⟨after, inTime⟩, hstep, h⟩ := Option.map_eq_some_iff.mp h
    cases h
    exact ⟨(Settling.step_moves hstep).leaves, fun _ hgo => by cases hgo⟩
  | replacing own addon reference settling =>
    obtain ⟨⟨after, inTime⟩, hstep, h⟩ := Option.map_eq_some_iff.mp h
    cases h
    have hsettled : site.Leaves (Mark.IsWorded former? aim?) after :=
      (Settling.step_moves hstep).leaves
    refine ⟨hsettled.trans (.mark { after with hub := _ } trivial), fun work' hgo => ?_⟩
    cases hgo
    exact ⟨by simp, ha⟩
  | opening own attempt =>
    have haim : aim? = some attempt.assignment.fingerprint := ha
    cases moves_of_opening h with
    | builds _ _ line note hcall =>
      simp only [step, Opening.step, hcall, Option.map_some, Option.some.injEq] at h
      cases h
      have hlogged : site.Leaves (Mark.IsWorded former? aim?) ((attempt.begin site).1.log .info
          ("Starting config watcher of addon " ++ own.text ++ " on " ++
            attempt.assignment.fingerprint.text)) := .log (attempt.begin site).1 _ _
      refine ⟨hlogged.trans (.mark _ ?_), fun _ hgo => by cases hgo⟩
      rw [haim]
      rfl
    | waits _ _ call =>
      refine ⟨.nothing rfl, fun work' hgo => ?_⟩
      cases hgo
      exact ⟨by simp, haim⟩
    | _ => exact ⟨.nothing rfl, fun _ hgo => by cases hgo⟩

/-- Whether the work can go on does not depend on the hub. -/
theorem step_eq_none_of_hub (hub : Hub) (hnew : ∀ text, work ≠ .fresh text)
    (h : work.step roster { site with hub := hub } = none) : work.step roster site = none := by
  have hsettling : ∀ settling : Settling, settling.step { site with hub := hub } = none →
      settling.step site = none := by
    intro settling hs
    have hearly : ({ site with hub := hub } : Site).now < settling.deadline :=
      Settling.lt_deadline hs
    unfold Settling.step at hs ⊢
    dsimp only at hs hearly ⊢
    cases hc : site.children[settling.handle.child]?.map Child.condition with
    | none => simp [hc] at hs
    | some condition =>
      cases condition with
      | running => simp [Nat.not_le.mpr hearly]
      | _ => simp [hc] at hs
  cases work with
  | fresh text => exact absurd rfl (hnew text)
  | stopping settling =>
    exact Option.map_eq_none_iff.mpr (hsettling _ (Option.map_eq_none_iff.mp h))
  | replacing _ _ _ settling =>
    exact Option.map_eq_none_iff.mpr (hsettling _ (Option.map_eq_none_iff.mp h))
  | opening own attempt =>
    have hwaits := Option.map_eq_none_iff.mp h
    have hcall : attempt.call.advance ({ site with hub := hub } : Site).now = .inl attempt.call :=
      Opening.advance_of_wait hwaits
    have hearly : ({ site with hub := hub } : Site).now < attempt.deadline :=
      Opening.lt_deadline hwaits
    dsimp only at hcall hearly
    refine Option.map_eq_none_iff.mpr ?_
    simp [Opening.step, hcall, Nat.not_le.mpr hearly]

/-- No poll takes the call back to its beginning. -/
theorem Moves.not_fresh {work' : Reconciling}
    (h : work.Moves site roster next roster' (.inl work')) : ∀ text, work' ≠ .fresh text := by
  cases h <;> simp

end Reconciling

namespace Errand

variable {env : Site → Site → Prop} {p : Errand → Prop} {e e' : Errand} {work : Reconciling}
  {site next : Site} {roster roster' : Roster} {result : Reconciling ⊕ Verdict} {text : String}
  {key : AddonKey} {former? aim? : Option Fingerprint} {act : Act}

/-- The next poll of a call, at what others have made of the site meanwhile. -/
inductive Polled (env : Site → Site → Prop) (e : Errand) : Errand → Prop
  | poll (work : Reconciling) (site : Site) (hwork : e.state = .inl work)
      (hsite : e.Meanwhile work site) (henv : env e.site site) : Polled env e (e.poll work site)

/-- A call that has ended goes no further. -/
theorem eq_of_ended {verdict : Verdict} (hend : e.state = .inr verdict)
    (hcourse : Relation.ReflTransGen (Polled env) e e') : e' = e := by
  rcases hcourse.cases_head with rfl | ⟨mid, hpolled, -⟩
  · rfl
  · cases hpolled with
    | poll work site hwork => cases hend.symm.trans hwork

/-- What holds when a call ends, whatever others do, holds at the end of each course of it. -/
theorem Ends.holds {verdict : Verdict} (h : e.Ends p)
    (hcourse : Relation.ReflTransGen (Polled env) e e') (hend : e'.state = .inr verdict) :
    p e' := by
  induction h with
  | ended e result hstate hp =>
    rw [eq_of_ended hstate hcourse]
    exact hp
  | waits e work hstate _ _ ih =>
    rcases hcourse.cases_head with rfl | ⟨mid, hpolled, hrest⟩
    · cases hstate.symm.trans hend
    · cases hpolled with
      | poll other site hwork hsite =>
        obtain rfl : work = other := Sum.inl.inj (hstate.symm.trans hwork)
        exact ih site hsite hrest

theorem poll_of_some (h : work.step e.roster site = some (next, roster', result)) :
    e.poll work site = ⟨next, roster', result, (site, next) :: e.polls⟩ := by
  simp only [poll, h]

theorem poll_of_none (h : work.step e.roster site = none) :
    e.poll work site = { e with site := site } := by
  simp only [poll, h]

theorem call_of_error {fault : Fault} (hp : AddonKey.parse text = .error fault) (roster : Roster)
    (site : Site) :
    call text roster site = ⟨site, roster, .inr (.failed fault), [(site, site)]⟩ :=
  call_of_start (by simp only [Reconciling.start, hp])

theorem moves_of_call (text : String) (roster : Roster) (site : Site) :
    Reconciling.Moves site roster (.fresh text) (call text roster site).site
      (call text roster site).roster (call text roster site).state :=
  Reconciling.moves_of_start rfl

theorem effects_call (text : String) (roster : Roster) (site : Site) :
    (call text roster site).effects = Effects.between site (call text roster site).site :=
  Effects.add_zero _

/-- The call is for that text, and what is registered is what was started for its key. -/
structure IsFor (text : String) (e : Errand) : Prop where
  entries : ∀ entry ∈ e.roster.entries, entry.2.IsFor e.site entry.1
  work : ∀ work, e.state = .inl work → work.Fits e.site e.roster text

namespace IsFor

theorem of_moves (h : work.Moves site roster next roster' result)
    (hfit : work.Fits site roster text) (hentries : ∀ e ∈ roster.entries, e.2.IsFor site e.1)
    (polls : List (Site × Site)) : IsFor text ⟨next, roster', result, polls⟩ := by
  refine ⟨fun entry he => (h.entries hfit hentries entry he).1, fun work' hgo => ?_⟩
  cases hgo
  exact h.fits hfit hentries

theorem of_call (hentries : ∀ e ∈ roster.entries, e.2.IsFor site e.1) :
    (call text roster site).IsFor text :=
  of_moves (moves_of_call text roster site) rfl hentries _

theorem others (h : e.IsFor text) (hgrows : e.site.Grows site) :
    IsFor text { e with site := site } :=
  ⟨fun entry he => (h.entries entry he).grows hgrows,
    fun work hgo => (h.work work hgo).grows hgrows⟩

theorem polled (h : e.IsFor text) (hpolled : e.Polled env e') : e'.IsFor text := by
  cases hpolled with
  | poll work site hwork hsite =>
    have hafter := h.others hsite.unfolds.grows
    cases hstep : work.step e.roster site with
    | none =>
      rw [poll_of_none hstep]
      exact hafter
    | some outcome =>
      obtain ⟨next, roster', result⟩ := outcome
      rw [poll_of_some hstep]
      exact of_moves (Reconciling.step_moves hstep) (hafter.work work hwork) hafter.entries _

/-- The call leaves the watchers of other keys alone, as far as it is for the call to do. -/
theorem live_of_ne (h : e.IsFor text) (hpolled : e.Polled env e') {i : Nat} {a : Assignment}
    (henv : ∀ site, env e.site site → site.Live i a) (hne : a.key.text ≠ text) :
    e'.site.Live i a := by
  cases hpolled with
  | poll work site hwork hsite hothers =>
    have hafter := h.others hsite.unfolds.grows
    have hlive := henv site hothers
    cases hstep : work.step e.roster site with
    | none =>
      rw [poll_of_none hstep]
      exact hlive
    | some outcome =>
      obtain ⟨next, roster', result⟩ := outcome
      rw [poll_of_some hstep]
      exact (Reconciling.step_moves hstep).live_of_ne (hafter.work work hwork) hafter.entries hlive
        hne

theorem get?_of_ne (h : e.IsFor text) (hpolled : e.Polled env e') {other : AddonKey}
    (hne : other.text ≠ text) : e'.roster.get? other = e.roster.get? other := by
  cases hpolled with
  | poll work site hwork hsite =>
    have hafter := h.others hsite.unfolds.grows
    cases hstep : work.step e.roster site with
    | none => rw [poll_of_none hstep]
    | some outcome =>
      obtain ⟨next, roster', result⟩ := outcome
      rw [poll_of_some hstep]
      exact (Reconciling.step_moves hstep).get?_of_text_ne (hafter.work work hwork) hne

end IsFor

/-- At the end of a call other keys have what they had, and their watchers that others let run run
on. -/
theorem course_spares (hentries : ∀ e ∈ roster.entries, e.2.IsFor site e.1)
    (hcourse : Relation.ReflTransGen (Polled env) (call text roster site) e) :
    e.IsFor text ∧ (∀ other : AddonKey, other.text ≠ text →
      e.roster.get? other = roster.get? other) ∧
    ∀ i a, a.key.text ≠ text → (∀ old new, env old new → old.Live i a → new.Live i a) →
      site.Live i a → e.site.Live i a := by
  have hmoves := moves_of_call text roster site
  induction hcourse with
  | refl =>
    refine ⟨.of_call hentries, fun other hne => hmoves.get?_of_text_ne rfl hne, ?_⟩
    exact fun i a hne _ hl => hmoves.live_of_ne rfl hentries hl hne
  | tail _ hpolled ih =>
    obtain ⟨hfor, hroster, hlives⟩ := ih
    refine ⟨hfor.polled hpolled, fun other hne => ?_, fun i a hne henv hl => ?_⟩
    · exact (hfor.get?_of_ne hpolled hne).trans (hroster other hne)
    · have hlive := hlives i a hne henv hl
      exact hfor.live_of_ne hpolled (fun after hafter => henv _ after hafter hlive) hne

/-- What the call itself has told so far. -/
def notes (e : Errand) : List (Notice × AddonKey × String) :=
  e.polls.flatMap fun poll => poll.1.notes poll.2

/-- What the call tells is told in the words for those two objects. -/
structure IsWorded (key : AddonKey) (former? aim? : Option Fingerprint) (e : Errand) : Prop where
  notes : e.notes = e.effects.told.map fun t => (t.1, t.2, t.1.wording former? aim?)
  aims : ∀ work, e.state = .inl work →
    (∀ text, work ≠ .fresh text) ∧ work.Aims e.roster key aim?

namespace IsWorded

theorem of_call (hp : AddonKey.parse text = .ok key) : (call text roster site).IsWorded key
    ((roster.get? key).map Handle.fingerprint) (site.hub.pointed key) := by
  obtain ⟨htext, hk⟩ := AddonKey.parse_eq_ok_iff.mp hp
  refine ⟨?_, fun work hgo => ?_⟩
  · have hworded : site.notes (call text roster site).site = _ :=
      Site.notes_of_worded (Reconciling.start_worded hp roster site)
    rw [effects_call]
    exact (List.append_nil _).trans hworded
  · have hmoves := moves_of_call text roster site
    rw [hgo] at hmoves
    exact ⟨hmoves.not_fresh, hmoves.aims hk htext rfl trivial⟩

theorem polled (h : e.IsWorded key former? aim?) (hpolled : e.Polled env e') :
    e'.IsWorded key former? aim? := by
  cases hpolled with
  | poll work site hwork hsite =>
    obtain ⟨hnew, haims⟩ := h.aims work hwork
    cases hstep : work.step e.roster site with
    | none =>
      rw [poll_of_none hstep]
      exact ⟨h.notes, h.aims⟩
    | some outcome =>
      obtain ⟨next, roster', result⟩ := outcome
      obtain ⟨hworded, hgoes⟩ := Reconciling.step_worded hstep hnew haims
      rw [poll_of_some hstep]
      refine ⟨?_, hgoes⟩
      rw [effects_cons, Effects.add, List.map_append, ← h.notes, ← Site.notes_of_worded hworded]
      rfl

theorem course (h : e.IsWorded key former? aim?)
    (hcourse : Relation.ReflTransGen (Polled env) e e') : e'.IsWorded key former? aim? := by
  induction hcourse with
  | refl => exact h
  | tail _ hpolled ih => exact ih.polled hpolled

end IsWorded

theorem course_unfolds (hh : e.site.halted = false)
    (hcourse : Relation.ReflTransGen (Polled env) e e') : e.site.Unfolds e'.site := by
  induction hcourse with
  | refl => exact .refl hh
  | tail _ hpolled ih =>
    cases hpolled with
    | poll work site hwork hsite =>
      have hsince := ih.trans hsite.unfolds
      cases hstep : work.step _ site with
      | none =>
        rw [poll_of_none hstep]
        exact hsince
      | some outcome =>
        obtain ⟨next, roster', result⟩ := outcome
        rw [poll_of_some hstep]
        have hmoves := Reconciling.step_moves hstep
        exact hsince.trans ⟨hmoves.grows, hmoves.halted.trans hsince.halted,
          Nat.le_of_eq hmoves.now.symm⟩

theorem unfolds_call (text : String) (roster : Roster) (hh : site.halted = false) :
    site.Unfolds (call text roster site).site := by
  have hmoves := moves_of_call text roster site
  exact ⟨hmoves.grows, hmoves.halted.trans hh, Nat.le_of_eq hmoves.now.symm⟩

/-- All that the call has asked for is dealt with by that act. -/
def Meets (act : Act) (e : Errand) : Prop :=
  ∀ ask ∈ e.effects.asked, ask.2 = act

theorem Meets.poll (h : e.Meets act) (hact : site.hub.opens.take.1 = act) :
    (e.poll work site).Meets act := by
  cases hstep : work.step e.roster site with
  | none =>
    rw [poll_of_none hstep]
    exact h
  | some outcome =>
    obtain ⟨next, roster', result⟩ := outcome
    rw [poll_of_some hstep]
    intro ask hask
    rcases List.mem_append.mp hask with hnow | hbefore
    · obtain ⟨target, -, rfl⟩ := List.mem_map.mp hnow
      exact hact
    · exact h ask hbefore

theorem Meets.of_call (hact : site.hub.opens.take.1 = act) : (call text roster site).Meets act := by
  intro ask hask
  rw [effects_call] at hask
  obtain ⟨target, -, rfl⟩ := List.mem_map.mp hask
  exact hact

/-- A call that ends, whatever others do, has a course in which they let time go by, and the hub
deals with all that is asked for in one way. -/
theorem Ends.exists_course (h : e.Ends p) (hh : e.site.halted = false)
    (hnew : ∀ text, e.state ≠ .inl (.fresh text)) (env : Site → Site → Prop)
    (henv : ∀ site hub moment, env site { site with hub := hub, now := moment })
    (hmeets : e.Meets act) : ∃ e' verdict, Relation.ReflTransGen (Polled env) e e' ∧
      e'.state = .inr verdict ∧ p e' ∧ e'.Meets act := by
  induction h with
  | ended e verdict hstate hp => exact ⟨e, verdict, .refl, hstate, hp, hmeets⟩
  | waits e work hstate _ _ ih =>
    have hold : ∀ text, work ≠ .fresh text := fun text he => hnew text (he ▸ hstate)
    let hub : Hub := { e.site.hub with opens := ⟨[], act⟩ }
    obtain ⟨moment, hsite⟩ : ∃ moment,
        e.Meanwhile work { e.site with hub := hub, now := moment } := by
      have hgrows : ∀ moment, e.site.Grows { e.site with hub := hub, now := moment } := fun _ =>
        ⟨rfl, rfl, id, Nat.le_refl _, fun _ _ => rfl, fun _ _ _ hl => hl, fun _ _ hr => hr⟩
      by_cases hwaits : work.step e.roster e.site = none
      · refine ⟨e.site.now + 1, ⟨hgrows _, hh, Nat.le_succ _⟩, fun hgo => absurd hwaits hgo, ?_, ?_⟩
        · exact fun timer _ ht => ht
        · exact fun _ => Nat.lt_succ_self _
      · refine ⟨e.site.now, ⟨hgrows _, hh, Nat.le_refl _⟩, fun _ => rfl, ?_, fun hstuck => ?_⟩
        · exact fun timer _ ht => Nat.le_of_lt ht
        · exact absurd (Reconciling.step_eq_none_of_hub hub hold hstuck) hwaits
    have hbegun : ∀ text, (e.poll work { e.site with hub := hub, now := moment }).state ≠
        .inl (.fresh text) := by
      intro text
      cases hstep : work.step e.roster { e.site with hub := hub, now := moment } with
      | none =>
        rw [poll_of_none hstep]
        exact hnew text
      | some outcome =>
        obtain ⟨next, roster', result⟩ := outcome
        rw [poll_of_some hstep]
        rintro rfl
        exact (Reconciling.step_moves hstep).not_fresh text rfl
    obtain ⟨e', verdict, hcourse, hrest⟩ := ih _ hsite (halted_poll hh) hbegun (hmeets.poll rfl)
    exact ⟨e', verdict, .head (.poll work _ hstate hsite (henv _ _ _)) hcourse, hrest⟩

end Errand

end AddonWatch

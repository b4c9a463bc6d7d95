import AddonWatch.Proofs.Addressing
import AddonWatch.Proofs.Shares

namespace AddonWatch

namespace Service

variable {h : Habits} {s : Service} {key : AddonKey} {text : String} {e : Errand}
  {verdict : Verdict} {site : Site} {env : Site → Site → Prop}

/-- Every key is at what its own calls make of it, and a registered watcher that has not come to
its end runs. -/
structure Follows (h : Habits) (s : Service) : Prop where
  up : s.site.halted = false
  timeout : s.site.settings.callTimeout = h.timeout
  entries : ∀ entry ∈ s.roster.entries, entry.2.IsFor s.site entry.1
  lives : ∀ key handle, s.roster.get? key = some handle →
    h.hasEnded key (s.share key) = false → ∃ a, s.site.Live handle.child a
  shares : ∀ key, s.share key = h.replay key (s.texts.count key.text)

theorem Follows.tends (hf : s.Follows h) (hp : AddonKey.parse text = .ok key)
    (hgreets : h.Greets s key)
    (hcourse : Relation.ReflTransGen (Errand.Polled env) (Errand.call text s.roster s.site) e)
    (hend : e.state = .inr verdict)
    (hdeals : h.Deals key (s.share key).asked.length e.effects.asked) :
    Tends h s key e verdict := by
  have hw := (Errand.IsWorded.of_call hp).course hcourse
  have hreg : ∀ entry ∈ s.roster.entries, entry.2.child < s.site.children.length :=
    fun entry he => (hf.entries entry he).lt_length
  cases hwanted : (h.shows key (s.share key).verdicts.length).bind Addon.desired with
  | none =>
    have hnone : ∀ addon, s.site.hub.addon? key.objectName = some addon → addon.desired = none := by
      intro addon ha
      rw [hgreets.shown] at ha
      simpa [ha] using hwanted
    have hstops := (Errand.ends_of_unwanted hf.up hreg hp hnone).holds hcourse hend
    exact tends_of_unwanted hstops hw hwanted hend
  | some reference =>
    obtain ⟨addon, ha, hd⟩ := Option.bind_eq_some_iff.mp hwanted
    rw [← hgreets.shown] at ha
    have haim : s.site.hub.pointed key = some reference.fingerprint := Hub.pointed_of_addon? ha hd
    cases hcurrent : (s.roster.get? key).any (·.isCurrent s.site reference.fingerprint) with
    | true =>
      rw [Errand.call_of_start (Reconciling.start_of_current hp haim hcurrent)] at hcourse
      obtain rfl := Errand.eq_of_ended rfl hcourse
      obtain rfl : Verdict.done = verdict := Sum.inr.inj hend
      obtain ⟨handle, hg, hlive⟩ := (Option.any_eq_true ..).mp hcurrent
      simp only [Handle.isCurrent, Bool.and_eq_true, decide_eq_true_eq] at hlive
      have hentry : (s.share key).entry = some reference.fingerprint := by
        simp [share, hg, hlive.1]
      have hup : h.hasEnded key (s.share key) = false := by
        by_contra hended
        have hdown := hgreets.ended handle hg (eq_true_of_ne_false hended)
        rw [hlive.2] at hdown
        cases hdown
      exact tends_of_current hentry hwanted hup fun other ho => hf.lives key other ho hup
    | false =>
      obtain ⟨act, hstarts⟩ :=
        (Errand.ends_of_outdated hf.up hreg hp ha hd hcurrent).holds hcourse hend
      rw [haim] at hw
      refine tends_of_outdated hstarts hw hf.timeout hwanted (fun hentry => ?_) hdeals hend
      by_contra hended
      obtain ⟨handle, hg, hsame⟩ := Option.map_eq_some_iff.mp hentry
      obtain ⟨a, hl⟩ := hf.lives key handle hg (eq_false_of_ne_true hended)
      have hlive : handle.isLive s.site = true := Handle.isLive_of_live hl
      simp [hg, Handle.isCurrent, hsame, hlive] at hcurrent

/-- What has not come to its end now had not before. -/
theorem hasEnded_before {p q : Share} (hbuilds : q.builds = p.builds)
    (hlen : p.verdicts.length ≤ q.verdicts.length) (hup : h.hasEnded key q = false) :
    h.hasEnded key p = false := by
  unfold Habits.hasEnded at hup ⊢
  rw [hbuilds] at hup
  cases hends : h.ends key p.builds with
  | none => rfl
  | some call =>
    simp only [hends, Option.any_some, decide_eq_false_iff_not] at hup ⊢
    omega

/-- A call serves its key, with the watcher that is registered then, and leaves all others. -/
theorem Follows.serves (hf : s.Follows h)
    (hgreets : ∀ key, AddonKey.parse text = .ok key → h.Greets s key)
    (hcourse : Relation.ReflTransGen (Errand.Polled env) (Errand.call text s.roster s.site) e)
    (hend : e.state = .inr verdict)
    (hdeals : ∀ key, AddonKey.parse text = .ok key →
      h.Deals key (s.share key).asked.length e.effects.asked) (key : AddonKey) :
    (key.text = text → (s.after text e verdict).share key = h.serve key (s.share key) ∧
      ∀ handle, e.roster.get? key = some handle →
        h.hasEnded key (h.serve key (s.share key)) = false →
          ∃ a, e.site.Live handle.child a) ∧
    (key.text ≠ text → (s.after text e verdict).share key = s.share key) := by
  obtain ⟨-, hroster, -⟩ := Errand.course_spares hf.entries hcourse
  cases hp : AddonKey.parse text with
  | error fault =>
    rw [Errand.call_of_error hp] at hcourse
    obtain rfl := Errand.eq_of_ended rfl hcourse
    obtain rfl : Verdict.failed fault = verdict := Sum.inr.inj hend
    constructor
    · rintro rfl
      simp only [Habits.serve, hp]
      refine ⟨share_after_idle s key _, fun handle hg hup => hf.lives key handle hg ?_⟩
      refine hasEnded_before ?_ ?_ hup
      · rfl
      · exact Nat.le_succ _
    · intro hne
      have hw := idle_isWorded key s.site s.roster (.failed fault)
      exact share_after_of_ne hw (by simp [idle_effects]) hne rfl
  | ok own =>
    obtain ⟨rfl, hk⟩ := AddonKey.parse_eq_ok_iff.mp hp
    have htends := hf.tends hp (hgreets own hp) hcourse hend (hdeals own hp)
    have hw := (Errand.IsWorded.of_call hp).course hcourse
    constructor
    · intro htext
      obtain ⟨-, rfl⟩ := AddonKey.parse_text_iff.mp (htext ▸ hp)
      simp only [Habits.serve, hp]
      exact ⟨htends.share, htends.lives⟩
    · intro hne
      refine share_after_of_ne hw (fun t ht he => hne ?_) hne (hroster key hne)
      rw [← he, htends.told t ht]

theorem Follows.calls (hf : s.Follows h)
    (hgreets : ∀ key, AddonKey.parse text = .ok key → h.Greets s key)
    (hcourse : Relation.ReflTransGen (Errand.Polled (h.Spares s))
      (Errand.call text s.roster s.site) e)
    (hend : e.state = .inr verdict)
    (hdeals : ∀ key, AddonKey.parse text = .ok key →
      h.Deals key (s.share key).asked.length e.effects.asked) :
    (s.after text e verdict).Follows h := by
  have hcall := Errand.unfolds_call text s.roster hf.up
  have hunfolds := hcall.trans (Errand.course_unfolds hcall.halted hcourse)
  obtain ⟨hfor, hroster, hspares⟩ := Errand.course_spares hf.entries hcourse
  have hserves := hf.serves hgreets hcourse hend hdeals
  refine ⟨hunfolds.halted, ?_, hfor.entries, fun key handle hg hup => ?_, fun key => ?_⟩
  · have hsettings : e.site.settings = s.site.settings := hunfolds.grows.settings
    exact (congrArg Settings.callTimeout hsettings).trans hf.timeout
  · obtain ⟨hown, hother⟩ := hserves key
    by_cases htext : key.text = text
    · obtain ⟨hshare, hlives⟩ := hown htext
      exact hlives handle hg (hshare ▸ hup)
    · rw [hother htext] at hup
      have hg : s.roster.get? key = some handle := (hroster key htext).symm.trans hg
      obtain ⟨a, hl⟩ := hf.lives key handle hg hup
      have hkey : a.key = key := (hf.entries _ (Roster.mem_of_get? hg)).key_eq hl.assignment?
      exact ⟨a, hspares _ a (hkey ▸ htext) (fun old new hs => hs key handle hg hup a) hl⟩
  · obtain ⟨hown, hother⟩ := hserves key
    have htexts : (s.after text e verdict).texts = text :: s.texts := rfl
    by_cases htext : key.text = text
    · rw [(hown htext).1, htexts, hf.shares key, htext, List.count_cons_self]
      rfl
    · rw [hother htext, htexts, hf.shares key, List.count_cons_of_ne (Ne.symm htext)]

theorem Reached.follows (hr : s.Reached h) : s.Follows h := by
  induction hr with
  | start site hup ht => exact ⟨hup, ht, by simp, by simp [Roster.get?], fun key => rfl⟩
  | others s site _ hu hs ih =>
    refine ⟨hu.halted, ?_, fun entry he => (ih.entries entry he).grows hu.grows,
      fun key handle hg hup => ?_, ih.shares⟩
    · exact (congrArg Settings.callTimeout hu.grows.settings).trans ih.timeout
    · obtain ⟨a, hl⟩ := ih.lives key handle hg hup
      exact ⟨a, hs key handle hg hup a hl⟩
  | calls s text e verdict _ hgreets hcourse hend hdeals ih =>
    exact ih.calls hgreets hcourse hend hdeals

/-- A call asks at most once, and then for the object that the stored addon points at. -/
theorem call_asks_once (hup : site.halted = false) {roster : Roster}
    (hreg : ∀ entry ∈ roster.entries, entry.2.child < site.children.length)
    (hp : AddonKey.parse text = .ok key) :
    (Errand.call text roster site).Ends fun e => e.effects.asked = [] ∨ ∃ reference act,
      (site.hub.addon? key.objectName).bind Addon.desired = some reference ∧
        e.effects.asked = [(reference.target, act)] := by
  cases hwanted : (site.hub.addon? key.objectName).bind Addon.desired with
  | none =>
    have hnone : ∀ addon, site.hub.addon? key.objectName = some addon → addon.desired = none := by
      intro addon ha
      simpa [ha] using hwanted
    refine (Errand.ends_of_unwanted hup hreg hp hnone).mono fun e hstops => .inl ?_
    rw [hstops.effects]
  | some reference =>
    obtain ⟨addon, ha, hd⟩ := Option.bind_eq_some_iff.mp hwanted
    cases hcurrent : (roster.get? key).any (·.isCurrent site reference.fingerprint) with
    | true =>
      have haim := Hub.pointed_of_addon? ha hd
      rw [Errand.call_of_start (Reconciling.start_of_current hp haim hcurrent)]
      refine .ended _ .done rfl (.inl ?_)
      rw [idle_effects]
    | false =>
      refine (Errand.ends_of_outdated hup hreg hp ha hd hcurrent).mono ?_
      rintro e ⟨act, hstarts⟩
      exact .inr ⟨reference, act, rfl, asked_of_starts hstarts⟩

/-- Others can see to it that the watcher of the key has ended if it is to have ended. -/
theorem Reached.exists_ended (hr : s.Reached h) (key : AddonKey) : ∃ site,
    Service.Reached h { s with site := site } ∧ ∀ handle, s.roster.get? key = some handle →
      h.hasEnded key (s.share key) = true → handle.isLive site = false := by
  have hf := hr.follows
  cases hg : s.roster.get? key with
  | none => exact ⟨s.site, hr, fun handle hsome => by cases hsome⟩
  | some former =>
    cases hended : h.hasEnded key (s.share key) with
    | false => exact ⟨s.site, hr, fun handle _ hdue => by cases hdue⟩
    | true =>
      have hages := Site.Ages.finish s.site former.child
        (show Condition.returned ≠ .running by simp)
      refine ⟨_, .others s (s.site.finish former.child .returned) hr (.of_ages hages hf.up rfl) ?_,
        fun handle hsame _ => ?_⟩
      · intro other handle ho hup a hl
        refine (Site.live_finish_of_ne fun hi => ?_).mpr hl
        have ha : s.site.assignment? handle.child = some a := hl.assignment?
        have hother : a.key = other := (hf.entries _ (Roster.mem_of_get? ho)).key_eq ha
        have hkey : a.key = key := (hf.entries _ (Roster.mem_of_get? hg)).key_eq (hi ▸ ha)
        rw [← hother, hkey, hended] at hup
        cases hup
      · obtain rfl := Option.some.inj hsame
        have hdone : (s.site.finish former.child .returned).isFinished former.child = true :=
          Site.isFinished_finish _ (by simp)
        unfold Handle.isLive
        split
        next child hc =>
          rw [Site.isFinished_of_getElem? hc] at hdone
          simp [hdone]
        next => rfl

/-- Others can see to it that the next call of the key meets with what it is to meet with, and that
the hub deals with the next request as it is to. -/
theorem Reached.exists_ready (hr : s.Reached h) (key : AddonKey) : ∃ site act,
    Service.Reached h { s with site := site } ∧ h.Greets { s with site := site } key ∧
    site.hub.opens.take.1 = act ∧
    ∀ reference, (site.hub.addon? key.objectName).bind Addon.desired = some reference →
      act = h.deals key reference.target (s.share key).asked.length := by
  obtain ⟨site, hended, hdown⟩ := hr.exists_ended key
  have hanswer : ∃ act, ∀ reference,
      (h.shows key (s.share key).verdicts.length).bind Addon.desired = some reference →
        act = h.deals key reference.target (s.share key).asked.length := by
    cases (h.shows key (s.share key).verdicts.length).bind Addon.desired with
    | none => exact ⟨.grant, by simp⟩
    | some reference => exact ⟨_, by rintro _ ⟨⟩; rfl⟩
  obtain ⟨act, hact⟩ := hanswer
  let hub : Hub :=
    { addons := (h.shows key (s.share key).verdicts.length).toList, opens := ⟨[], act⟩ }
  have hshown : hub.addon? key.objectName = h.shows key (s.share key).verdicts.length := by
    cases hfound : h.shows key (s.share key).verdicts.length with
    | none => simp [hub, Hub.addon?, hfound]
    | some addon => simp [hub, Hub.addon?, hfound, h.named key _ addon hfound]
  have hages := Site.Ages.hub_trace site hub site.trace site.exits
  have hready : Service.Reached h { s with site := { site with hub := hub } } :=
    .others { s with site := site } _ hended (.of_ages hages hended.follows.up rfl)
      fun _ _ _ _ _ hl => hl
  refine ⟨{ site with hub := hub }, act, hready, ⟨hshown, hdown⟩, rfl, fun reference hwanted => ?_⟩
  exact hact reference (hshown ▸ hwanted)

/-- One request is dealt with if it is dealt with as the next one. -/
theorem deals_once {before : Nat} {target : Target} {act : Act}
    (hact : act = h.deals key target before) : h.Deals key before [(target, act)] := by
  intro later other dealt earlier hsplit
  cases later with
  | nil =>
    obtain ⟨hask, rfl⟩ := List.cons.inj hsplit
    obtain ⟨rfl, rfl⟩ := Prod.mk.inj hask
    exact hact
  | cons ask rest => simp at hsplit

/-- Whatever text comes next, there is a course of its call. -/
theorem Reached.exists_next (hr : s.Reached h) (text : String) :
    ∃ next : Service, next.Reached h ∧ next.texts = text :: s.texts := by
  cases hp : AddonKey.parse text with
  | error fault =>
    have hend : (Errand.call text s.roster s.site).state = .inr (.failed fault) := by
      rw [Errand.call_of_error hp]
    refine ⟨_, .calls s text _ (.failed fault) hr ?_ .refl hend ?_, rfl⟩
    · intro key hok
      cases hp.symm.trans hok
    · intro key hok
      cases hp.symm.trans hok
  | ok key =>
    obtain ⟨site, act, hready, hgreets, hopens, hact⟩ := hr.exists_ready key
    have hf := hready.follows
    have hends := call_asks_once hf.up (fun entry he => (hf.entries entry he).lt_length) hp
    have hcall := Errand.unfolds_call text s.roster hf.up
    have hnew : ∀ other, (Errand.call text s.roster site).state ≠ .inl (.fresh other) := by
      intro other hfresh
      have hmoves := Errand.moves_of_call text s.roster site
      rw [hfresh] at hmoves
      exact hmoves.not_fresh other rfl
    obtain ⟨e, verdict, hcourse, hend, hasked, hmeets⟩ := hends.exists_course hcall.halted hnew
      (h.Spares { s with site := site }) (fun _ _ _ _ _ _ _ _ hl => hl) (.of_call hopens)
    have hdeals : h.Deals key (s.share key).asked.length e.effects.asked := by
      rcases hasked with hnone | ⟨reference, dealt, hwanted, hone⟩
      · intro later target dealt earlier hsplit
        simp [hnone] at hsplit
      · have hdealt : dealt = act := hmeets (reference.target, dealt) (by simp [hone])
        rw [hone]
        exact deals_once (hdealt.trans (hact reference hwanted))
    refine ⟨_, .calls _ text e verdict hready (fun own hok => ?_) hcourse hend (fun own hok => ?_),
      rfl⟩
    · obtain rfl : key = own := Except.ok.inj (hp.symm.trans hok)
      exact hgreets
    · obtain rfl : key = own := Except.ok.inj (hp.symm.trans hok)
      exact hdeals

/-- Every sequence of calls can be served. -/
theorem Reached.exists_of_texts (h : Habits) (texts : List String) :
    ∃ s, Service.Reached h s ∧ s.texts = texts := by
  induction texts with
  | nil => exact ⟨_, .start { settings := { callTimeout := h.timeout } } rfl rfl, rfl⟩
  | cons text texts ih =>
    obtain ⟨s, hr, rfl⟩ := ih
    exact hr.exists_next text

/-- Addons are independent. Calls can come in every order, and whatever it is, what concerns a key
is what comes of its own calls alone: the object that its registered watcher is on, the outcomes of
its calls, the objects asked for and what is told of it, with how many watchers were started. So
calls for different keys can change places. -/
theorem addons_independent (h : Habits) :
    (∀ texts, ∃ s : Service, s.Reached h ∧ s.texts = texts) ∧
    ∀ s : Service, s.Reached h →
      (∀ (key : AddonKey) (alone : Service), alone.Reached h →
        alone.texts = s.texts.filter (· = key.text) → alone.share key = s.share key) ∧
      ∀ other : Service, other.Reached h → other.texts.Perm s.texts →
        ∀ key, other.share key = s.share key := by
  refine ⟨Reached.exists_of_texts h, fun s hr => ⟨?_, ?_⟩⟩
  · intro key alone halone htexts
    have hcount : alone.texts.count key.text = s.texts.count key.text := by
      rw [htexts]
      exact List.count_filter (by simp)
    rw [halone.follows.shares key, hcount, ← hr.follows.shares key]
  · intro other hother hperm key
    rw [hother.follows.shares key, hperm.count_eq, ← hr.follows.shares key]

/-- The first addon is repointed between its calls, and its first watcher has ended by then; the
other one is refused its object, and then it is gone. -/
def unsteady : Habits where
  timeout := Span.ofMillis 10
  shows key call :=
    if key = ⟨"ns", "a"⟩ then some (Supervision.specimen "a" (if call = 0 then "x" else "y"))
    else if key = ⟨"ns", "b"⟩ ∧ call = 0 then some (Supervision.specimen "b" "z")
    else none
  deals key _ _ := if key = ⟨"ns", "a"⟩ then .delay 5 .grant else .refuse .unserved
  ends _ build := if build = 1 then some 1 else none
  named key call addon hshown := by
    split at hshown
    next hkey =>
      cases hshown
      rw [hkey]
      split <;> rfl
    next =>
      split at hshown
      next hkey =>
        cases hshown
        rw [hkey.1]
        rfl
      next => cases hshown

theorem addons_independent_unsteady : ∃ s alone : Service, s.Reached unsteady ∧
    s.texts = ["ns/b", "ns/a", "junk", "ns/b", "ns/a"] ∧ alone.Reached unsteady ∧
    alone.texts = ["ns/a", "ns/a"] ∧ alone.share ⟨"ns", "a"⟩ = s.share ⟨"ns", "a"⟩ ∧
    (s.share ⟨"ns", "a"⟩).entry = some ⟨"cfg.test/v1/tests/ns/y"⟩ ∧
    (s.share ⟨"ns", "a"⟩).verdicts = [.done, .done] ∧ (s.share ⟨"ns", "a"⟩).builds = 2 := by
  obtain ⟨hserved, hfrom⟩ := addons_independent unsteady
  obtain ⟨s, hr, htexts⟩ := hserved ["ns/b", "ns/a", "junk", "ns/b", "ns/a"]
  obtain ⟨alone, halone, hown⟩ := hserved ["ns/a", "ns/a"]
  have hshare : s.share ⟨"ns", "a"⟩ = unsteady.replay ⟨"ns", "a"⟩ 2 := by
    rw [hr.follows.shares, htexts]
    rfl
  refine ⟨s, alone, hr, htexts, halone, hown, (hfrom s hr).1 _ alone halone ?_, ?_⟩
  · rw [hown, htexts]
    rfl
  · rw [hshare]
    decide +kernel

end Service

end AddonWatch

import AddonWatch.Proofs.Errand
import AddonWatch.Proofs.Undisturbed

namespace AddonWatch

namespace Act

/-- The reply that a call hears within that time, if it hears one. -/
def within (act : Act) (timeout : Span) : Option Reply :=
  (act.answer?.filter fun answer => answer.1 ≤ timeout.millis).map Prod.snd

variable {act : Act} {call call' : Call} {asked now : Nat} {timeout : Span}
  {reply : Reply}

theorem within_of_reply (ha : call.answer? = (⟨asked, act⟩ : Call).answer?)
    (hp : call.IsPrompt now) (hle : now ≤ asked + timeout.millis)
    (h : call.advance now = .inr reply) :
    act.within timeout = some reply := by
  have hanswer := (Call.answer?_of_reply hp h).symm.trans ha
  obtain ⟨answer, hact, he⟩ := Option.map_eq_some_iff.mp hanswer.symm
  obtain ⟨hnow, rfl⟩ := Prod.mk.inj he
  have hin : answer.1 ≤ timeout.millis := by
    dsimp only at hnow
    omega
  simp [within, hact, Option.filter, hin]

/-- Nothing comes in time any more for a call that waits on at its deadline. -/
theorem within_of_wait (ha : call.answer? = (⟨asked, act⟩ : Call).answer?)
    (hp : call.IsPrompt now) (hle : asked + timeout.millis ≤ now)
    (h : call.advance now = .inl call') :
    act.within timeout = none := by
  obtain ⟨hsame, hahead, -⟩ := Call.answer?_of_wait hp h
  cases hact : act.answer? with
  | none => simp [within, hact]
  | some answer =>
    have hanswer : call'.answer? = some (asked + answer.1, answer.2) := by
      rw [hsame, ha]
      simp [Call.answer?, hact]
    have hlate := Call.lt_of_answer? hahead hanswer
    have hover : ¬answer.1 ≤ timeout.millis := by omega
    simp [within, hact, Option.filter, hover]

end Act

/-- What a call comes to that asks for the object of a reference, by the reply that it hears in
time. -/
def Reference.verdict (reference : Reference) (timeout : Span) : Option Reply → Verdict
  | some .granted => .done
  | some (.refused refusal) =>
    .failed (.build reference.fingerprint
      (refusal.fault ⟨"ns", "injected"⟩ reference.target.text))
  | some .crashed => .crashed
  | none => .failed (.build reference.fingerprint (.timeout timeout))

/-- What is told before a watcher is to start where that one is registered. -/
def Reconciling.announced (key : AddonKey) (former? : Option Handle) (fingerprint : Fingerprint) :
    List (Notice × AddonKey) :=
  match former? with
  | none => []
  | some former => if former.fingerprint = fingerprint then [] else [(.changed, key)]

/-- What is left of the wait for an object: of the time, and of what the hub is about to do. -/
def Opening.left (o : Opening) (now : Nat) : Nat :=
  o.deadline - now + o.call.act.delays

/-- Apart from remarks on the way, an object is asked for once. -/
theorem Opening.effects_start {site after : Site} (key : AddonKey) (reference : Reference)
    (hw : site.WindsDown after) (hl : site.Leaves (fun _ => False) after) :
    Effects.between site (start key reference after).1 =
      { asked := [(reference.target, site.hub.opens.take.1)] } := by
  obtain ⟨marks, ht, hmarks⟩ := hl
  obtain ⟨htold, hnone⟩ := Effects.filterMap_remarks hmarks
  have hmark : (start key reference after).1.trace =
      (.opened reference.target after.now :: marks) ++ site.trace := congrArg _ ht
  have htasks : (start key reference after).1.children.length = site.children.length + 0 :=
    hw.ages.length
  have hfeeds : (start key reference after).1.hub.feeds.length = site.hub.feeds.length + 0 :=
    hw.hub.length
  rw [Effects.between_of_marks _ hmark htasks hfeeds]
  simp only [List.filterMap_cons, Mark.told?, Mark.asked?, htold, hnone, List.map_cons,
    List.map_nil]

/-- To register over what has been taken out is to register. -/
theorem Roster.insert_erase (roster : Roster) (key : AddonKey) (handle : Handle) :
    ((roster.erase key).insert key handle).2 = (roster.insert key handle).2 := by
  simp [Roster.insert, Roster.erase, List.filter_filter]

theorem Addon.desired_eq_some_iff {addon : Addon} {reference : Reference} :
    addon.desired = some reference ↔
      addon.isDeleting = false ∧ addon.reference = some reference ∧ reference.version ≠ "" := by
  cases hd : addon.isDeleting <;>
    simp [desired, hd, Option.filter_eq_some_iff, Reference.isDiscovered]

namespace Reconciling

variable {text : String} {key : AddonKey} {addon : Addon} {reference : Reference} {roster : Roster}
  {site : Site}

theorem start_of_unwanted (roster : Roster) (hp : AddonKey.parse text = .ok key)
    (hw : ∀ addon, site.hub.addon? key.objectName = some addon → addon.desired = none) :
    start text roster site = stop key roster site := by
  cases ha : site.hub.addon? key.objectName with
  | none => simp only [start, hp, decision, ha]
  | some addon => simp only [start, hp, decision, ha, hw addon ha]

theorem start_of_outdated (hp : AddonKey.parse text = .ok key)
    (ha : site.hub.addon? key.objectName = some addon) (hd : addon.desired = some reference)
    (hc : (roster.get? key).any (·.isCurrent site reference.fingerprint) = false) :
    start text roster site = replace key addon reference roster site := by
  simp only [start, hp, decision, ha, hd, hc, Bool.false_eq_true, if_false]

theorem stop_of_some {former : Handle} (site : Site) (hg : roster.get? key = some former) :
    ∃ next, stop key roster site = (next, roster.erase key, .inl (.stopping
        ⟨former, site.settings.cancelGrace, site.now + site.settings.cancelGrace.millis⟩)) ∧
      next.children = (site.fire former.child).children ∧ site.WindsDown next ∧
      Effects.between site next = { told := [(.stopped, key)] } := by
  have hw := fun line note => Site.WindsDown.announced site line .stopped key note former.child
  simp only [stop, Roster.remove, hg]
  exact ⟨_, rfl, rfl, hw _ _, Effects.between_of_windsDown
    [.noted .stopped key _ site.now, .logged .info _] (hw _ _) rfl⟩

theorem announceReplacement_cases (key : AddonKey) (old new : Fingerprint) (site : Site) :
    (old = new ∧ ∃ line, announceReplacement key old new site = site.log .warn line) ∨
    (old ≠ new ∧ ∃ line note, announceReplacement key old new site =
      (site.log .info line).note .changed key note) := by
  unfold announceReplacement
  split
  next hsame => exact .inl ⟨hsame, _, rfl⟩
  next hother => exact .inr ⟨hother, _, _, rfl⟩

/-- It is told that a watcher is replaced by one on another object, and no more. -/
theorem effects_announceReplacement (key : AddonKey) (former : Handle) (fingerprint : Fingerprint)
    (site : Site) :
    Effects.between site
        ((announceReplacement key former.fingerprint fingerprint site).fire former.child) =
      { told := announced key (some former) fingerprint } := by
  rcases announceReplacement_cases key former.fingerprint fingerprint site with
    ⟨hsame, line, he⟩ | ⟨hother, line, note, he⟩
  · rw [he, announced, if_pos hsame]
    exact Effects.between_of_windsDown [.logged .warn line]
      ((Site.WindsDown.log _ _ _).trans (.fire _ _)) rfl
  · rw [he, announced, if_neg hother]
    exact Effects.between_of_windsDown [.noted .changed key note site.now, .logged .info line]
      (.announced _ _ _ _ _ _) rfl

theorem replace_of_some {former : Handle} (addon : Addon) (reference : Reference) (site : Site)
    (hg : roster.get? key = some former) :
    ∃ next, replace key addon reference roster site = (next, roster.erase key,
      .inl (.replacing key addon reference ⟨former, site.settings.cancelGrace,
        site.now + site.settings.cancelGrace.millis⟩)) ∧
      next.children = (site.fire former.child).children ∧ site.WindsDown next ∧
      Effects.between site next =
        { told := announced key (some former) reference.fingerprint } := by
  have heffects := effects_announceReplacement key former reference.fingerprint site
  obtain ⟨trace, he, hw⟩ := announceReplacement_eq key former.fingerprint reference.fingerprint site
  simp only [replace, Roster.remove, hg]
  rw [he] at heffects ⊢
  exact ⟨_, rfl, rfl, (Site.WindsDown.remarks hw).trans (.fire _ _), heffects⟩

/-- With a new watcher registered there are one more task, one more stream, and a notice. -/
theorem register_begin (attempt : Opening) (key : AddonKey) (roster : Roster)
    (hh : site.halted = false) :
    ∃ next, register key (attempt.begin site).2 roster (attempt.begin site).1 = (next,
        (roster.insert key ⟨attempt.assignment.fingerprint, site.children.length⟩).2,
        .inr .done) ∧
      site.Unfolds next ∧ next.now = site.now ∧
      next.Live site.children.length attempt.assignment ∧
      Effects.between site next = ⟨[(.started, key)], [], 1, 1⟩ := by
  have hgrows := attempt.grows_begin site
  refine ⟨_, rfl, ⟨hgrows.trans (Site.Ages.hub_trace _ _ _ _).grows, hh, Nat.le_refl _⟩, rfl,
    attempt.live_begin_self hh, ?_⟩
  refine Effects.between_of_marks [.noted .started key _ _, .logged .info _] rfl
    (attempt.length_begin site) ?_
  simp [Opening.begin_eq, Hub.openConfig, Hub.openFeed, Site.spawn, Site.log, Site.note, Site.mark]

end Reconciling

namespace Errand

variable {began site next after : Site} {roster roster' : Roster} {key : AddonKey}
  {reference : Reference} {act : Act} {former : Handle} {deadline asked : Nat} {e : Errand}
  {attempt : Opening} {polls : List (Site × Site)}

/-- The call has ended well, where no watcher is wanted. -/
structure Stops (began : Site) (roster : Roster) (key : AddonKey) (e : Errand) : Prop where
  state : e.state = .inr .done
  absent : e.roster = roster.erase key
  effects : e.effects = { told := ((roster.get? key).map fun _ => (.stopped, key)).toList }
  former : ∀ former, roster.get? key = some former →
    e.PartsWith former (began.now + began.settings.cancelGrace.millis)
  now : e.site.now ≤ began.now + began.settings.cancelGrace.millis

/-- The call has ended, where a watcher is to start: it has asked for the object once, which the hub
deals with by that act, and only if that is granted in time there is a new watcher. -/
structure Starts (began : Site) (roster : Roster) (key : AddonKey) (reference : Reference)
    (act : Act) (e : Errand) : Prop where
  state : e.state = .inr (reference.verdict began.settings.callTimeout
    (act.within began.settings.callTimeout))
  former : ∀ former, roster.get? key = some former →
    e.PartsWith former (began.now + began.settings.cancelGrace.millis)
  now : e.site.now ≤
    began.now + began.settings.cancelGrace.millis + began.settings.callTimeout.millis
  granted : act.within began.settings.callTimeout = some .granted → ∃ child,
    began.children.length ≤ child ∧
    e.site.Live child ⟨key, reference.fingerprint, reference.target⟩ ∧
    e.roster = (roster.insert key ⟨reference.fingerprint, child⟩).2 ∧
    e.effects = ⟨(.started, key) ::
      Reconciling.announced key (roster.get? key) reference.fingerprint,
      [(reference.target, act)], 1, 1⟩
  otherwise : act.within began.settings.callTimeout ≠ some .granted →
    e.roster = roster.erase key ∧
    e.effects = ⟨Reconciling.announced key (roster.get? key) reference.fingerprint,
      [(reference.target, act)], 0, 0⟩

/-- The call waits for the object that it asked for then. -/
structure Asking (began : Site) (roster : Roster) (key : AddonKey) (reference : Reference)
    (act : Act) (asked : Nat) (attempt : Opening) (e : Errand) : Prop where
  unfolds : began.Unfolds e.site
  state : e.state = .inl (.opening key attempt)
  absent : e.roster = roster.erase key
  assignment : attempt.assignment = ⟨key, reference.fingerprint, reference.target⟩
  soon : asked ≤ began.now + began.settings.cancelGrace.millis
  due : attempt.deadline = asked + began.settings.callTimeout.millis
  now : e.site.now ≤ attempt.deadline
  answer : attempt.call.answer? = (⟨asked, act⟩ : Call).answer?
  prompt : attempt.call.IsPrompt e.site.now
  effects : e.effects = ⟨Reconciling.announced key (roster.get? key) reference.fingerprint,
    [(reference.target, act)], 0, 0⟩
  former : ∀ former, roster.get? key = some former →
    former.child < began.children.length ∧
      e.PartsWith former (began.now + began.settings.cancelGrace.millis)

namespace PartsWith

/-- A watcher that has ended has still ended, whatever becomes of the site. -/
theorem unfolds (h : e.PartsWith former deadline) (hlt : former.child < e.site.children.length)
    (hs : e.site.Unfolds site) {roster : Roster} {state : Reconciling ⊕ Verdict} :
    (⟨site, roster, state, e.polls⟩ : Errand).PartsWith former deadline :=
  ⟨h.told, h.patient, h.orderly, hs.isFinished hlt h.finished⟩

theorem poll (h : e.PartsWith former deadline) (hlt : former.child < e.site.children.length)
    (hs : e.site.Unfolds site) (hn : site.Unfolds next) {roster : Roster}
    {state : Reconciling ⊕ Verdict} :
    (⟨next, roster, state, (site, next) :: e.polls⟩ : Errand).PartsWith former deadline := by
  have hsite := hs.isFinished hlt h.finished
  have hnext := (hs.trans hn).isFinished hlt h.finished
  obtain ⟨poll, hm, htold⟩ := h.told
  refine ⟨⟨poll, List.mem_cons_of_mem _ hm, htold⟩, fun poll hm hrun => ?_,
    fun poll hm hasked => ?_, hnext⟩
  · rcases List.mem_cons.mp hm with rfl | hm
    · rw [hsite] at hrun
      cases hrun
    · exact h.patient poll hm hrun
  · rcases List.mem_cons.mp hm with rfl | hm
    · exact hnext
    · exact h.orderly poll hm hasked

/-- The first poll tells the watcher to stop, the second one finds that it has ended, or that it is
time. -/
theorem of_polls {roster : Roster} {state : Reconciling ⊕ Verdict}
    (hlt : former.child < began.children.length)
    (htold : next.children = (began.fire former.child).children)
    (hasked : (Effects.between began next).asked = [])
    (hdone : after.isFinished former.child = true)
    (hlate : site.isFinished former.child = false → deadline ≤ site.now) :
    (⟨after, roster, state, [(site, after), (began, next)]⟩ : Errand).PartsWith former
      deadline := by
  have hchild : next.children[former.child]? =
      some { began.children[former.child] with fired := true } := by
    rw [htold, Site.fire, Site.getElem?_setChild, if_pos rfl, List.getElem?_eq_getElem hlt]
    rfl
  refine ⟨⟨(began, next), by simp, _, hchild, rfl⟩, fun poll hm hrun hend => ?_,
    fun poll hm hne => ?_, hdone⟩
  · obtain rfl | rfl : poll = (site, after) ∨ poll = (began, next) := by simpa using hm
    · exact hlate hrun
    · rw [Site.isFinished_of_getElem? (List.getElem?_eq_getElem hlt)] at hrun
      rw [Site.isFinished_of_getElem? hchild] at hend
      exact absurd (hend.symm.trans hrun) (by simp)
  · obtain rfl | rfl : poll = (site, after) ∨ poll = (began, next) := by simpa using hm
    · exact hdone
    · exact absurd hasked hne

end PartsWith

namespace Asking

/-- The call waits on, with what is left of the request. -/
theorem waits (h : e.Asking began roster key reference act asked attempt)
    (hs : e.site.Unfolds site) (hnow : site.now ≤ attempt.deadline) {call : Call}
    (ha : call.answer? = attempt.call.answer?) (hp : call.IsPrompt site.now)
    (hpolls : polls = e.polls ∨ polls = (site, site) :: e.polls) :
    (⟨site, e.roster, .inl (.opening key { attempt with call := call }), polls⟩ : Errand).Asking
      began roster key reference act asked { attempt with call := call } where
  unfolds := h.unfolds.trans hs
  state := rfl
  absent := h.absent
  assignment := h.assignment
  soon := h.soon
  due := h.due
  now := hnow
  answer := ha.trans h.answer
  prompt := hp
  effects := by
    rcases hpolls with rfl | rfl
    · exact h.effects
    · rw [effects_cons, Effects.between_self, Effects.zero_add]
      exact h.effects
  former former hg := by
    obtain ⟨hlt, hparts⟩ := h.former former hg
    have hlt' := Nat.lt_of_lt_of_le hlt h.unfolds.grows.length
    refine ⟨hlt, ?_⟩
    rcases hpolls with rfl | rfl
    · exact hparts.unfolds hlt' hs
    · exact hparts.poll hlt' hs (.refl hs.halted)

/-- The call ends without a watcher. -/
theorem fails (h : e.Asking began roster key reference act asked attempt)
    (hs : e.site.Unfolds site) (hnow : site.now ≤ attempt.deadline)
    (hn : act.within began.settings.callTimeout ≠ some .granted) :
    (⟨site, e.roster, .inr (reference.verdict began.settings.callTimeout
      (act.within began.settings.callTimeout)), (site, site) :: e.polls⟩ : Errand).Starts
        began roster key reference act where
  state := rfl
  former former hg := by
    obtain ⟨hlt, hparts⟩ := h.former former hg
    exact hparts.poll (Nat.lt_of_lt_of_le hlt h.unfolds.grows.length) hs (.refl hs.halted)
  now := by
    have hdue := h.due
    have hsoon := h.soon
    dsimp only
    omega
  granted hgranted := absurd hgranted hn
  otherwise _ := by
    refine ⟨h.absent, ?_⟩
    rw [effects_cons, Effects.between_self, Effects.zero_add]
    exact h.effects

/-- The call ends with a watcher that lives. -/
theorem builds (h : e.Asking began roster key reference act asked attempt)
    (hs : e.site.Unfolds site) (hnow : site.now ≤ attempt.deadline)
    (hgranted : act.within began.settings.callTimeout = some .granted)
    (hregister : Reconciling.register key (attempt.begin site).2 e.roster (attempt.begin site).1 =
      (next, roster', .inr .done)) :
    (⟨next, roster', .inr .done, (site, next) :: e.polls⟩ : Errand).Starts began roster key
      reference act := by
  obtain ⟨built, hbuilt, hunfolds, hsame, hlive, hdone⟩ :=
    Reconciling.register_begin attempt key e.roster hs.halted
  obtain ⟨rfl, hrest⟩ := Prod.mk.inj (hbuilt.symm.trans hregister)
  obtain rfl := (Prod.mk.inj hrest).1
  refine ⟨?_, fun former hg => ?_, ?_, fun _ => ?_, fun hn => absurd hgranted hn⟩
  · rw [hgranted]
    rfl
  · obtain ⟨hlt, hparts⟩ := h.former former hg
    exact hparts.poll (Nat.lt_of_lt_of_le hlt h.unfolds.grows.length) hs hunfolds
  · have hdue := h.due
    have hsoon := h.soon
    dsimp only
    omega
  · refine ⟨site.children.length, (h.unfolds.trans hs).grows.length, h.assignment ▸ hlive, ?_, ?_⟩
    · rw [h.absent, Roster.insert_erase, h.assignment]
    · rw [effects_cons, hdone, h.effects]
      rfl

theorem poll_of_wait {call : Call} (hstate : e.state = .inl (.opening key attempt))
    (hcall : attempt.call.advance site.now = .inl call) (hdue : ¬attempt.deadline ≤ site.now) :
    ∃ polls, (polls = e.polls ∨ polls = (site, site) :: e.polls) ∧
      e.poll (.opening key attempt) site =
        ⟨site, e.roster, .inl (.opening key { attempt with call := call }), polls⟩ := by
  by_cases hstill : call = attempt.call
  · refine ⟨e.polls, .inl rfl, ?_⟩
    simp [Errand.poll, Reconciling.step, Opening.step, hcall, hdue, hstill, hstate]
  · refine ⟨_, .inr rfl, ?_⟩
    simp [Errand.poll, Reconciling.step, Opening.step, hcall, hdue, hstill]

/-- With each poll the call ends, or less of the request is left, or the deadline is nearer. -/
theorem poll (h : e.Asking began roster key reference act asked attempt)
    (hsite : e.Meanwhile (.opening key attempt) site) :
    (e.poll (.opening key attempt) site).Ends (Starts began roster key reference act) ∨
      ∃ attempt', (e.poll (.opening key attempt) site).Asking began roster key reference act asked
        attempt' ∧ attempt'.left (e.poll (.opening key attempt) site).site.now <
          attempt.left e.site.now := by
  have hs := hsite.unfolds
  have hnow := hsite.now_le List.mem_cons_self h.now fun hwaits =>
    Opening.lt_deadline (Option.map_eq_none_iff.mp hwaits)
  have hp := hsite.isPrompt h.prompt
  have hfails : ∀ {verdict}, reference.verdict began.settings.callTimeout
      (act.within began.settings.callTimeout) = verdict →
      act.within began.settings.callTimeout ≠ some .granted →
      (⟨site, e.roster, .inr verdict, (site, site) :: e.polls⟩ : Errand).Ends
        (Starts began roster key reference act) := by
    rintro verdict rfl hn
    exact .ended _ _ rfl (h.fails hs hnow hn)
  cases hcall : attempt.call.advance site.now with
  | inr reply =>
    left
    have hin := Act.within_of_reply h.answer hp (h.due ▸ hnow) hcall
    cases reply with
    | granted =>
      simp only [Errand.poll, Reconciling.step, Opening.step, hcall, Option.map_some]
      exact .ended _ _ rfl (h.builds hs hnow hin rfl)
    | refused refusal =>
      simp only [Errand.poll, Reconciling.step, Opening.step, hcall, Option.map_some]
      refine hfails ?_ (by simp [hin])
      simp [hin, Reference.verdict, h.assignment]
    | crashed =>
      simp only [Errand.poll, Reconciling.step, Opening.step, hcall, Option.map_some]
      refine hfails ?_ (by simp [hin])
      simp [hin, Reference.verdict]
  | inl call =>
    by_cases hdue : attempt.deadline ≤ site.now
    · left
      have hin := Act.within_of_wait h.answer hp (h.due ▸ hdue) hcall
      have hsettings := (h.unfolds.trans hs).grows.settings
      simp only [Errand.poll, Reconciling.step, Opening.step, hcall, hdue, if_true,
        Option.map_some]
      refine hfails ?_ (by simp [hin])
      simp [hin, Reference.verdict, h.assignment, hsettings]
    · right
      obtain ⟨hsame, hahead, hless⟩ := Call.answer?_of_wait hp hcall
      obtain ⟨polls, hpolls, he⟩ := poll_of_wait h.state hcall hdue
      refine ⟨{ attempt with call := call }, ?_, ?_⟩
      · rw [he]
        exact h.waits hs hnow hsame (hahead.imp_left Nat.le_of_lt) hpolls
      · rw [he]
        have hlater := hs.now
        dsimp only [Opening.left]
        rcases hless with hstill | hless
        · have hpassed := hsite.goesOn (by
            simp [Reconciling.step, Opening.step, hcall, hdue, hstill])
          rw [hstill]
          omega
        · omega

/-- The call waits for the reply, or until the deadline, and ends with that. -/
theorem ends (h : e.Asking began roster key reference act asked attempt) :
    e.Ends (Starts began roster key reference act) := by
  refine Ends.of_variant (fun n e => ∃ attempt,
    e.Asking began roster key reference act asked attempt ∧ n = attempt.left e.site.now) ?_
    ⟨attempt, h, rfl⟩
  rintro n e ⟨attempt, h, rfl⟩
  refine ⟨.opening key attempt, h.state, fun hwaits => ⟨_, List.mem_cons_self,
    Opening.lt_deadline (Option.map_eq_none_iff.mp hwaits)⟩, fun site hsite => ?_⟩
  refine (h.poll hsite).imp_right ?_
  rintro ⟨attempt', h', hless⟩
  exact ⟨_, hless, attempt', h', rfl⟩

end Asking

/-- With the former watcher gone, if there was one, the object is asked for. -/
theorem Asking.of_start (before : Errand) (hu : began.Unfolds site) (hw : site.WindsDown after)
    (hl : site.Leaves (fun _ => False) after)
    (hsoon : site.now ≤ began.now + began.settings.cancelGrace.millis)
    (heffects : before.effects =
      { told := Reconciling.announced key (roster.get? key) reference.fingerprint })
    (hstart : Opening.start key reference after = (next, attempt))
    (hformer : ∀ former, roster.get? key = some former → former.child < began.children.length ∧
      (⟨next, roster.erase key, .inl (.opening key attempt), (site, next) :: before.polls⟩ :
        Errand).PartsWith former (began.now + began.settings.cancelGrace.millis)) :
    (⟨next, roster.erase key, .inl (.opening key attempt), (site, next) :: before.polls⟩ :
      Errand).Asking began roster key reference site.hub.opens.take.1 after.now attempt := by
  have hsettings : after.settings = began.settings := hw.ages.settings.trans hu.grows.settings
  have hopens : after.hub.opens = site.hub.opens := hw.hub.opens
  have hnext : (Opening.start key reference after).1 = next := congrArg Prod.fst hstart
  have hattempt : (Opening.start key reference after).2 = attempt := congrArg Prod.snd hstart
  subst hnext hattempt
  have hages := hw.ages.trans (Opening.start_ages key reference after)
  refine ⟨hu.trans (.of_ages hages (hages.halted.trans hu.halted) hw.now), rfl, rfl, rfl,
    hw.now ▸ hsoon, ?_, Nat.le_add_right _ _, ?_, .inl (Nat.le_refl _), ?_, hformer⟩
  · rw [← hsettings]
    rfl
  · rw [← hopens]
    rfl
  · rw [effects_cons, Opening.effects_start key reference hw hl, heffects]
    rfl

theorem call_of_start {text : String} {state : Reconciling ⊕ Verdict}
    (h : Reconciling.start text roster site = (next, roster', state)) :
    call text roster site = ⟨next, roster', state, [(site, next)]⟩ := by
  rw [call, h]

theorem ends_of_unwanted {text : String} (hh : site.halted = false)
    (hreg : ∀ e ∈ roster.entries, e.2.child < site.children.length)
    (hp : AddonKey.parse text = .ok key)
    (hw : ∀ addon, site.hub.addon? key.objectName = some addon → addon.desired = none) :
    (call text roster site).Ends (Stops site roster key) := by
  have hstart := Reconciling.start_of_unwanted roster hp hw
  cases hg : roster.get? key with
  | none =>
    have hstop : Reconciling.stop key roster site = (site, roster.erase key, .inr .done) := by
      simp only [Reconciling.stop, Roster.remove, hg]
    rw [call_of_start (hstart.trans hstop)]
    refine .ended _ _ rfl ⟨rfl, rfl, ?_, fun former hf => ?_, Nat.le_add_right _ _⟩
    · rw [hg]
      exact congrArg (Effects.add · _) (Effects.between_self site)
    · cases hg.symm.trans hf
  | some former =>
    obtain ⟨told, hstop, hfire, hw, htold⟩ := Reconciling.stop_of_some site hg
    rw [call_of_start (hstart.trans hstop)]
    have hbefore : told.now ≤ site.now + site.settings.cancelGrace.millis := by
      have hsame := hw.now
      omega
    refine ends_of_settling (fun roster site => (site, roster, .inr .done)) (fun _ _ => rfl) rfl
      rfl (hw.ages.halted.trans hh) hbefore fun mid next inTime _ hnow hs => ?_
    have hm := Settling.step_moves hs
    refine .ended _ _ rfl ⟨rfl, rfl, ?_, fun other ho => ?_, ?_⟩
    · simp only [effects, List.foldr_cons, htold,
        Effects.between_of_remarks hm.windsDown hm.leaves, Effects.zero_add, hg]
      rfl
    · obtain rfl : former = other := Option.some.inj (hg.symm.trans ho)
      exact .of_polls (hreg _ (Roster.mem_of_get? hg)) hfire (congrArg _ htold) hm.finished
        (Settling.late hs)
    · exact Nat.le_trans (Nat.le_of_eq hm.windsDown.now) hnow

theorem ends_of_outdated {text : String} {addon : Addon} (hh : site.halted = false)
    (hreg : ∀ e ∈ roster.entries, e.2.child < site.children.length)
    (hp : AddonKey.parse text = .ok key) (ha : site.hub.addon? key.objectName = some addon)
    (hd : addon.desired = some reference)
    (hc : (roster.get? key).any (·.isCurrent site reference.fingerprint) = false) :
    (call text roster site).Ends fun e => ∃ act, e.Starts site roster key reference act := by
  have hstart := Reconciling.start_of_outdated hp ha hd hc
  have hkey : addon.key = key := Addon.key_of_objectName (AddonKey.parse_eq_ok_iff.mp hp).2
    (Hub.objectName_of_addon? ha)
  have hask : ∀ roster site, Reconciling.openFor key addon reference roster site =
      ((Opening.start key reference site).1, roster,
        .inl (.opening key (Opening.start key reference site).2)) := by
    intro roster site
    rw [← hkey]
    rfl
  cases hg : roster.get? key with
  | none =>
    have hreplace : Reconciling.replace key addon reference roster site =
        Reconciling.openFor key addon reference (roster.erase key) site := by
      simp only [Reconciling.replace, Roster.remove, hg]
    rw [call_of_start (hstart.trans (hreplace.trans (hask _ _)))]
    refine (Asking.ends (Asking.of_start ⟨site, roster, .inr .done, []⟩ (.refl hh) (.refl site)
      (.nothing rfl) (Nat.le_add_right _ _) ?_ rfl ?_)).mono fun e he => ⟨_, he⟩
    · rw [hg]
      rfl
    · intro former hf
      cases hg.symm.trans hf
  | some former =>
    obtain ⟨told, hreplace, hfire, hw, htold⟩ :=
      Reconciling.replace_of_some addon reference site hg
    rw [call_of_start (hstart.trans hreplace)]
    have htelling : site.Unfolds told := .of_ages hw.ages (hw.ages.halted.trans hh) hw.now
    have hbefore : told.now ≤ site.now + site.settings.cancelGrace.millis := by
      have hsame := hw.now
      omega
    refine ends_of_settling (Reconciling.openFor key addon reference) (fun _ _ => rfl) rfl rfl
      htelling.halted hbefore fun mid after inTime hu hnow hs => ?_
    have hm := Settling.step_moves hs
    rw [hask]
    refine (Asking.ends (Asking.of_start ⟨told, roster, .inr .done, [(site, told)]⟩
      (htelling.trans hu) hm.windsDown hm.leaves hnow ?_ rfl fun other ho => ?_)).mono
        fun e he => ⟨_, he⟩
    · simp only [effects, List.foldr_cons, List.foldr_nil, htold, hg, Effects.add_zero]
    · obtain rfl : former = other := Option.some.inj (hg.symm.trans ho)
      exact ⟨hreg _ (Roster.mem_of_get? hg), .of_polls (hreg _ (Roster.mem_of_get? hg)) hfire
        (congrArg _ htold) hm.finished (Settling.late hs)⟩

/-- While the scope stands, whatever others do meanwhile, one call of a reconciliation does this. A
malformed key is refused, and nothing is touched. Where the addon is missing, deleting, or points
at no object that has been found, its watcher is let go of, and none is asked for. A live watcher
on the right object is left alone. In all other cases the former watcher is let go of, if there is
one, and then the object is asked for once: the new watcher is registered if that is granted in
time, and otherwise the call fails and none is registered. -/
theorem call_realises_decision_table (text : String) (roster : Roster) (site : Site)
    (hh : site.halted = false) (hreg : ∀ e ∈ roster.entries, e.2.child < site.children.length) :
    (∀ fault, AddonKey.parse text = .error fault → fault = .invalidKey text ∧
      call text roster site = ⟨site, roster, .inr (.failed fault), [(site, site)]⟩) ∧
    ∀ key, AddonKey.parse text = .ok key →
      ((∀ addon reference, site.hub.addon? key.objectName = some addon →
          addon.reference = some reference →
            addon.isDeleting = true ∨ reference.version = "") →
        (call text roster site).Ends (Stops site roster key)) ∧
      ∀ addon reference, site.hub.addon? key.objectName = some addon →
        addon.reference = some reference → addon.isDeleting = false → reference.version ≠ "" →
          ((roster.get? key).any (·.isCurrent site reference.fingerprint) = true →
            call text roster site = ⟨site, roster, .inr .done, [(site, site)]⟩) ∧
          ((roster.get? key).any (·.isCurrent site reference.fingerprint) = false →
            (call text roster site).Ends fun e =>
              ∃ act, e.Starts site roster key reference act) := by
  refine ⟨fun fault hp => ⟨?_, call_of_start ?_⟩, fun key hp => ⟨fun hnone => ?_, ?_⟩⟩
  · unfold AddonKey.parse at hp
    split at hp <;> cases hp
    rfl
  · simp only [Reconciling.start, hp]
  · refine ends_of_unwanted hh hreg hp fun addon ha => ?_
    by_contra hd
    obtain ⟨reference, hd⟩ := Option.ne_none_iff_exists'.mp hd
    obtain ⟨hstays, hr, hfound⟩ := Addon.desired_eq_some_iff.mp hd
    rcases hnone addon reference ha hr with hdeleting | hempty
    · rw [hstays] at hdeleting
      cases hdeleting
    · exact hfound hempty
  · intro addon reference ha hr hstays hfound
    have hd : addon.desired = some reference :=
      Addon.desired_eq_some_iff.mpr ⟨hstays, hr, hfound⟩
    have hpointed : site.hub.pointed key = some reference.fingerprint := by
      simp [Hub.pointed, Hub.wanted, ha, hd]
    exact ⟨fun hc => call_of_start (Reconciling.start_of_current hp hpointed hc),
      ends_of_outdated hh hreg hp ha hd⟩

/-- A watcher that does not heed its cancellation, of an addon that points elsewhere by now; the hub
is about to refuse the new subscription. -/
def outdated : Site where
  hub := {
    addons := [Supervision.specimen "a" "x"]
    opens := ⟨[.delay 5 (.refuse .unserved)], .grant⟩ }
  children := [{ body := .timed {} }]

theorem call_realises_decision_table_first :
    outdated.isFinished 0 = false ∧
    ∃ (e : Errand) (act : Act), e.Starts outdated ⟨[(⟨"ns", "a"⟩, ⟨⟨"elsewhere"⟩, 0⟩)]⟩ ⟨"ns", "a"⟩
      { group := "cfg.test", version := "v1", resource := "tests", ns := "ns", name := "x" }
      act := by
  have hp : AddonKey.parse "ns/a" = .ok ⟨"ns", "a"⟩ :=
    AddonKey.parse_eq_ok_iff.mpr ⟨rfl, by decide⟩
  obtain ⟨-, htable⟩ := call_realises_decision_table "ns/a"
    ⟨[(⟨"ns", "a"⟩, ⟨⟨"elsewhere"⟩, 0⟩)]⟩ outdated rfl (by decide)
  have hends := ((htable _ hp).2 (Supervision.specimen "a" "x") _ rfl rfl rfl (by decide)).2
    (by decide)
  obtain ⟨e, -, -, act, hstarts⟩ := hends.reaches rfl
  exact ⟨rfl, e, act, hstarts⟩

end Errand

end AddonWatch

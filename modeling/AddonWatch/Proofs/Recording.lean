import AddonWatch.Proofs.DecisionTable

namespace AddonWatch

/-- What makes a watcher write: both objects are there, the addon refers to its target, and the
generation to record is another than the one in the reference. -/
structure Assignment.IsDue (a : Assignment) (name : String) (hub : Hub) (config : ConfigObject)
    (old : Addon) (reference : Reference) : Prop where
  configured : hub.config? a.target (a.configName name) = some config
  installed : hub.addon? a.key.objectName = some old
  refers : old.reference = some reference
  current : reference.fingerprint = a.fingerprint
  differs : reference.observed.observe (config.generation.getD .zero) ≠ reference.observed

namespace Assignment

variable {a : Assignment} {name : String} {site next : Site} {config : ConfigObject}
  {old : Addon} {reference : Reference} {w : Write}

theorem IsDue.plan (h : a.IsDue name site.hub config old reference) :
    a.plan name (site.hub.config? a.target (a.configName name))
        (site.hub.addon? a.key.objectName) =
      .write (old.withObserved (reference.observed.observe (config.generation.getD .zero)))
        (reference.observed.observe (config.generation.getD .zero)) := by
  rw [h.configured, h.installed]
  have hcurrent : ¬reference.fingerprint ≠ a.fingerprint := not_not.mpr h.current
  simp only [Assignment.plan, h.refers, if_neg hcurrent, if_neg h.differs]

/-- Where nothing is due nothing is planned. -/
theorem plan_of_not_due (h : ∀ config old reference, ¬a.IsDue name site.hub config old reference) :
    ∃ remark, a.plan name (site.hub.config? a.target (a.configName name))
      (site.hub.addon? a.key.objectName) = .skip remark := by
  cases hplan : a.plan name (site.hub.config? a.target (a.configName name))
      (site.hub.addon? a.key.objectName) with
  | skip remark => exact ⟨remark, rfl⟩
  | write addon observed =>
    obtain ⟨config, old, reference, hc, ha, -, hr, hf, hobserved, hne⟩ := plan_write hplan
    exact absurd ⟨hc, ha, hr, hf, hobserved ▸ hne⟩ (h config old reference)

/-- A write that has begun was planned, and is the next call that the hub hears of. -/
theorem observe_write (h : a.observe name site = (next, .inl w)) :
    site.hub.faultyReads = 0 ∧
      next = { site with hub := { site.hub with writes := site.hub.writes.take.2 } } ∧
      a.plan name (site.hub.config? a.target (a.configName name))
        (site.hub.addon? a.key.objectName) = .write w.addon w.observed ∧
      w.call = ⟨site.now, site.hub.writes.take.1⟩ ∧
      w.deadline = site.now + site.settings.callTimeout.millis := by
  unfold observe at h
  split at h
  · cases h
  next hread =>
    split at h
    · cases h
    · cases h
    next addon observed hplan =>
      cases h
      exact ⟨by omega, rfl, hplan, rfl, rfl⟩

end Assignment

namespace Write

variable {w w' : Write} {a : Assignment} {author : Option Nat} {site new after : Site}
  {verdict : Verdict}

theorem advance_of_wait (h : w.step a author site = none) :
    w.call.advance site.now = .inl w.call := by
  unfold step at h
  split at h
  · cases h
  next call hcall =>
    split at h
    · cases h
    · split at h
      next hstill => rw [hcall, hstill]
      next => cases h

/-- A poll that leaves the write waiting does nothing but to ask once more. -/
theorem step_on (h : w.step a author site = some (after, .inl w')) :
    after = site ∧ site.now < w.deadline ∧ ∃ call, w' = { w with call := call } ∧
      w.call.advance site.now = .inl call ∧ call ≠ w.call := by
  unfold step at h
  split at h
  · cases h
  next call hcall =>
    split at h
    · cases h
    next hlate =>
      split at h
      · cases h
      next hstill =>
        cases h
        exact ⟨rfl, Nat.lt_of_not_le hlate, call, rfl, hcall, hstill⟩

/-- A write ends with the reply, or with its time. -/
theorem step_done (h : w.step a author site = some (after, .inr verdict)) :
    (∃ reply, w.call.advance site.now = .inr reply ∧
      w.finish a author site reply = (after, verdict)) ∨
    ∃ call, w.call.advance site.now = .inl call ∧ w.deadline ≤ site.now ∧ after = site ∧
      verdict = .failed (.timeout site.settings.callTimeout) := by
  unfold step at h
  split at h
  next reply hcall =>
    cases h
    exact .inl ⟨reply, hcall, rfl⟩
  next call hcall =>
    split at h
    next hlate =>
      cases h
      exact .inr ⟨call, hcall, hlate, rfl, rfl⟩
    · split at h <;> cases h

/-- What the site has become when a write is polled again: time has gone by only if the write had to
wait, and not past a timer that it waits for; and it can go on unless time has gone by. -/
structure Meanwhile (w : Write) (a : Assignment) (author : Option Nat) (old new : Site) : Prop where
  settings : new.settings = old.settings
  now : old.now ≤ new.now
  clock : w.step a author old ≠ none → new.now = old.now
  timers : ∀ timer ∈ w.timers, old.now < timer → new.now ≤ timer
  goesOn : w.step a author new = none → old.now < new.now

/-- Whatever others do between its polls, the write ends, and then that holds of the sites before
and behind the last poll and of the verdict. Until then its polls change nothing, and there is a
timer ahead whenever it has to wait. -/
inductive Ends (a : Assignment) (author : Option Nat) (p : Site → Site → Verdict → Prop) :
    Write → Site → Prop
  | polled (w : Write) (site : Site)
      (hahead : w.step a author site = none → ∃ timer ∈ w.timers, site.now < timer)
      (hquiet : ∀ later after w', w.Meanwhile a author site later →
        w.step a author later = some (after, .inl w') → after = later ∧ w'.addon = w.addon)
      (hwaits : ∀ later, w.Meanwhile a author site later → w.step a author later = none →
        Ends a author p w later)
      (hgoes : ∀ later after w', w.Meanwhile a author site later →
        w.step a author later = some (after, .inl w') → Ends a author p w' after)
      (hdone : ∀ later after verdict, w.Meanwhile a author site later →
        w.step a author later = some (after, .inr verdict) → p later after verdict) :
      Ends a author p w site

/-- A write that ends, whatever others do, does end: they can always leave it alone. -/
theorem Ends.reaches {p : Site → Site → Verdict → Prop} (h : w.Ends a author p site) :
    ∃ before after verdict, p before after verdict := by
  induction h with
  | polled w site _ _ _ _ hdone ihwaits ihgoes =>
    have hmoment : ∃ later, w.Meanwhile a author site later := by
      by_cases hw : w.step a author site = none
      · exact ⟨{ site with now := site.now + 1 }, rfl, Nat.le_succ _, fun hgo => absurd hw hgo,
          fun _ _ ht => ht, fun _ => Nat.lt_succ_self _⟩
      · exact ⟨site, rfl, Nat.le_refl _, fun _ => rfl, fun _ _ ht => Nat.le_of_lt ht,
          fun hstuck => absurd hstuck hw⟩
    obtain ⟨later, hm⟩ := hmoment
    cases hs : w.step a author later with
    | none => exact ihwaits later hm hs
    | some result =>
      obtain ⟨after, w' | verdict⟩ := result
      · exact ihgoes later after w' hm hs
      · exact ⟨later, after, verdict, hdone later after verdict hm hs⟩

theorem Ends.mono {p q : Site → Site → Verdict → Prop} (h : w.Ends a author p site)
    (hpq : ∀ before after verdict, p before after verdict → q before after verdict) :
    w.Ends a author q site := by
  induction h with
  | polled w site hahead hquiet _ _ hdone ihwaits ihgoes =>
    exact .polled w site hahead hquiet ihwaits ihgoes fun later after verdict hm hs =>
      hpq _ _ _ (hdone later after verdict hm hs)

/-- What a write comes to by the reply that it hears in time. It fails if it is refused, unless the
addon is missing, or if no reply comes in time. Nothing but the granted addon is changed. -/
structure Concludes (addon : Addon) (deadline : Nat) (timeout : Span) (reply? : Option Reply)
    (before after : Site) (verdict : Verdict) : Prop where
  soon : before.now ≤ deadline
  fails : ∀ fault, verdict = .failed fault ↔
    reply? = none ∧ fault = .timeout timeout ∨
    ∃ refusal, reply? = some (.refused refusal) ∧ fault = refusal.fault addon.key "" ∧
      ∀ key, fault ≠ .notFound key
  crashes : verdict = .crashed ↔ reply? = some .crashed
  idle : reply? ≠ some .granted ∨ before.hub.addon? addon.objectName = none → after = before
  stores : reply? = some .granted → before.hub.addon? addon.objectName ≠ none →
    after.hub.addon? addon.objectName = some addon
  others : ∀ object, object ≠ addon.objectName → after.hub.addon? object = before.hub.addon? object
  configs : after.hub.configs = before.hub.configs
  calls : after.hub.writes = before.hub.writes

/-- The moment at which the hub has something to say is not missed. -/
theorem Meanwhile.isPrompt (h : w.Meanwhile a author site new)
    (hp : w.call.IsPrompt site.now) : w.call.IsPrompt new.now := by
  by_cases hw : w.step a author site = none
  · obtain ⟨-, hahead, -⟩ := Call.answer?_of_wait hp (advance_of_wait hw)
    refine hahead.imp_left fun hdue => h.timers _ ?_ hdue
    simp [Write.timers, Call.timers]
  · rw [h.clock hw]
    exact hp

theorem Meanwhile.now_le (h : w.Meanwhile a author site new) (hle : site.now ≤ w.deadline) :
    new.now ≤ w.deadline := by
  by_cases hw : w.step a author site = none
  · exact h.timers _ List.mem_cons_self (lt_deadline hw)
  · rw [h.clock hw]
    exact hle

/-- A write that the hub was asked for at that moment and deals with in that way. -/
structure Asked (w : Write) (act : Act) (asked : Nat) (site : Site) : Prop where
  answer : w.call.answer? = (⟨asked, act⟩ : Call).answer?
  prompt : w.call.IsPrompt site.now
  now : site.now ≤ w.deadline
  due : w.deadline = asked + site.settings.callTimeout.millis

/-- What is left of the wait for a reply: of the time, and of what the hub is about to do. -/
def left (w : Write) (now : Nat) : Nat :=
  w.deadline - now + w.call.act.delays

variable {act : Act} {asked : Nat}

theorem Asked.meanwhile (h : w.Asked act asked site) (hm : w.Meanwhile a author site new) :
    w.Asked act asked new :=
  ⟨h.answer, hm.isPrompt h.prompt, hm.now_le h.now, hm.settings ▸ h.due⟩

/-- A write that waits on after a poll has less to wait for. -/
theorem Asked.goes (h : w.Asked act asked site)
    (hs : w.step a author site = some (after, .inl w')) :
    w'.Asked act asked site ∧ w'.left site.now < w.left site.now := by
  obtain ⟨rfl, hlate, call, rfl, hcall, hstill⟩ := step_on hs
  obtain ⟨hsame, hahead, hless⟩ := Call.answer?_of_wait h.prompt hcall
  have hdelays := hless.resolve_left hstill
  refine ⟨⟨hsame.trans h.answer, hahead.imp_left Nat.le_of_lt, h.now, h.due⟩, ?_⟩
  dsimp only [left]
  omega

theorem verdict_eq_failed_iff {fault fault' : Fault} :
    Write.verdict fault = .failed fault' ↔ fault' = fault ∧ ∀ key, fault' ≠ .notFound key := by
  cases fault with
  | notFound key =>
    constructor
    · intro hv
      cases hv
    · rintro ⟨rfl, hne⟩
      exact absurd rfl (hne key)
  | _ =>
    constructor
    · intro hv
      cases hv
      exact ⟨rfl, fun key he => by cases he⟩
    · rintro ⟨rfl, -⟩
      rfl

theorem verdict_ne_crashed (fault : Fault) : Write.verdict fault ≠ .crashed := by
  rcases verdict_cases fault with ⟨key, -, hv⟩ | hv
  · simp [hv]
  · simp [hv]

/-- What the reply does that a write has waited for. -/
theorem concludes_of_finish {deadline : Nat} {timeout : Span} {reply : Reply}
    (hsoon : site.now ≤ deadline) (h : w.finish a author site reply = (after, verdict)) :
    Concludes w.addon deadline timeout (some reply) site after verdict := by
  unfold finish at h
  split at h
  next =>
    split at h
    next hmissing =>
      cases h
      exact ⟨hsoon, by simp [Write.verdict], by simp [Write.verdict], fun _ => rfl,
        fun _ hne => absurd hmissing hne, fun _ _ => rfl, rfl, rfl⟩
    next stored hstored =>
      cases h
      refine ⟨hsoon, by simp, by simp, ?_, fun _ _ => ?_, fun object hne => ?_, rfl, rfl⟩
      · rintro (hother | hmissing)
        · exact absurd rfl hother
        · cases hstored.symm.trans hmissing
      · exact Hub.addon?_stores_self site.hub w.addon
      · exact Hub.addon?_stores_of_ne site.hub hne.symm
  next refusal =>
    cases h
    refine ⟨hsoon, fun fault => ?_, ?_, fun _ => rfl, by simp, fun _ _ => rfl, rfl, rfl⟩
    · rw [verdict_eq_failed_iff]
      simp
    · simp [verdict_ne_crashed]
  next =>
    cases h
    exact ⟨hsoon, by simp, by simp, fun _ => rfl, by simp, fun _ _ => rfl, rfl, rfl⟩

/-- The last poll of a write concludes it. -/
theorem Asked.concludes (h : w.Asked act asked site)
    (hs : w.step a author site = some (after, .inr verdict)) :
    Concludes w.addon w.deadline site.settings.callTimeout
      (act.within site.settings.callTimeout) site after verdict := by
  rcases step_done hs with ⟨reply, hcall, hfinish⟩ | ⟨call, hcall, hlate, rfl, rfl⟩
  · have hin := Act.within_of_reply h.answer h.prompt (h.due ▸ h.now) hcall
    rw [hin]
    exact concludes_of_finish h.now hfinish
  · have hin := Act.within_of_wait h.answer h.prompt (h.due ▸ hlate) hcall
    rw [hin]
    refine ⟨h.now, fun fault => ?_, ?_, fun _ => rfl, ?_, fun _ _ => rfl, rfl, rfl⟩
    · simp [eq_comm]
    · simp
    · simp

/-- Whatever others do meanwhile, a write is concluded. -/
theorem Asked.ends (h : w.Asked act asked site) :
    w.Ends a author (Concludes w.addon w.deadline site.settings.callTimeout
      (act.within site.settings.callTimeout)) site := by
  generalize hn : w.left site.now = n
  induction n using Nat.strong_induction_on generalizing w site with
  | _ n ih =>
    subst hn
    refine .polled w site (fun hw => ⟨w.deadline, List.mem_cons_self, lt_deadline hw⟩)
      (fun new after w' hm hs => ?_) (fun new hm hw => ?_) (fun new after w' hm hs => ?_)
      (fun new after verdict hm hs => ?_)
    · obtain ⟨rfl, -, call, rfl, -⟩ := step_on hs
      exact ⟨rfl, rfl⟩
    · have hlater := h.meanwhile hm
      have hpassed := hm.goesOn hw
      have hless : w.left new.now < w.left site.now := by
        have hahead := hlater.now
        dsimp only [left]
        omega
      rw [← hm.settings]
      exact ih _ hless hlater rfl
    · obtain ⟨hnext, hless⟩ := (h.meanwhile hm).goes hs
      obtain ⟨rfl, -, call, rfl, -⟩ := step_on hs
      have hlater := hm.now
      have hleft : ({ w with call := call } : Write).left after.now < w.left site.now := by
        dsimp only [left] at hless ⊢
        omega
      rw [← hm.settings]
      exact ih _ hleft hnext rfl
    · rw [← hm.settings]
      exact (h.meanwhile hm).concludes hs

end Write

/-- The draft is the addon that was read, but for the generation in its reference. -/
theorem Addon.withObserved_eq {old : Addon} {reference : Reference}
    (h : old.reference = some reference) (observed : Generation) :
    ∃ status, old.status = some status ∧ status.reference = some reference ∧
      old.withObserved observed = { old with status := some { status with
        reference := some { reference with observed := observed } } } := by
  obtain ⟨status, hs, hr⟩ := Option.bind_eq_some_iff.mp h
  refine ⟨status, hs, hr, ?_⟩
  simp [withObserved, hs, hr]

namespace Assignment

variable {a : Assignment} {name : String} {site : Site} {config : ConfigObject} {old : Addon}
  {reference : Reference}

/-- The write that is due begins, with the next act of the hub. -/
theorem IsDue.observe (h : a.IsDue name site.hub config old reference)
    (hread : site.hub.faultyReads = 0) :
    ∃ w, a.observe name site =
        ({ site with hub := { site.hub with writes := site.hub.writes.take.2 } }, .inl w) ∧
      w.addon = old.withObserved (reference.observed.observe (config.generation.getD .zero)) := by
  have hplan := h.plan
  unfold Assignment.observe
  rw [if_neg (by omega)]
  rw [hplan]
  exact ⟨_, rfl, rfl⟩

theorem observe_of_not_due (hread : site.hub.faultyReads = 0)
    (h : ∀ config old reference, ¬a.IsDue name site.hub config old reference) :
    ∃ after, a.observe name site = (after, .inr .done) ∧
      (after = site ∨ ∃ remark, after = site.log .debug remark) := by
  obtain ⟨remark, hplan⟩ := plan_of_not_due h
  unfold Assignment.observe
  rw [if_neg (by omega), hplan]
  cases remark with
  | none => exact ⟨site, rfl, .inl rfl⟩
  | some text => exact ⟨_, rfl, .inr ⟨text, rfl⟩⟩

/-- A watcher that looks at both objects calls the hub if and only if a write is due, and once. What
it hands over is the addon that it has read with the new generation in the reference, and with
nothing else changed. The call fails exactly if it is refused, unless the addon is missing, or if no
reply comes in time. If a write is granted only on the version that it was made from, and there is
one content to each version, no more than the generation is ever changed in what is stored. -/
theorem records_generation (a : Assignment) (name : String) (author : Option Nat) (site : Site) :
    (0 < site.hub.faultyReads →
      (a.observe name site).2 = .inr .crashed ∧
        (a.observe name site).1.hub.writes = site.hub.writes) ∧
    (site.hub.faultyReads = 0 →
      ((∀ config old reference, ¬a.IsDue name site.hub config old reference) →
        ∃ after, a.observe name site = (after, .inr .done) ∧
          (after = site ∨ ∃ remark, after = site.log .debug remark)) ∧
      ∀ config old reference, a.IsDue name site.hub config old reference →
        ∃ (status : Status) (w : Write) (next : Site),
          a.observe name site = (next, .inl w) ∧
          next = { site with hub := { site.hub with writes := site.hub.writes.take.2 } } ∧
          old.status = some status ∧ status.reference = some reference ∧
          w.addon = { old with status := some { status with reference := some { reference with
            observed := reference.observed.observe (config.generation.getD .zero) } } } ∧
          w.Ends a author (fun before after verdict =>
            Write.Concludes w.addon (site.now + site.settings.callTimeout.millis)
              site.settings.callTimeout
              (site.hub.writes.take.1.within site.settings.callTimeout) before after verdict ∧
            ∀ stored, before.hub.addon? a.key.objectName = some stored →
              stored.metadata.resourceVersion = w.addon.metadata.resourceVersion →
              (stored.metadata.resourceVersion = old.metadata.resourceVersion → stored = old) →
              after.hub.addon? a.key.objectName = some stored ∨
              after.hub.addon? a.key.objectName = some { stored with status := some { status with
                reference := some { reference with
                  observed := reference.observed.observe (config.generation.getD .zero) } } })
            next) := by
  refine ⟨fun hfaulty => ?_, fun hread => ⟨observe_of_not_due hread, ?_⟩⟩
  · unfold Assignment.observe
    rw [if_pos hfaulty]
    exact ⟨rfl, rfl⟩
  · intro config old reference hdue
    obtain ⟨w, hobserve, hdraft⟩ := hdue.observe hread
    obtain ⟨status, hs, hr, hwith⟩ := Addon.withObserved_eq hdue.refers
      (reference.observed.observe (config.generation.getD .zero))
    obtain ⟨-, -, -, hcall, hdeadline⟩ := observe_write hobserve
    have hasked : w.Asked site.hub.writes.take.1 site.now
        { site with hub := { site.hub with writes := site.hub.writes.take.2 } } := by
      refine ⟨by rw [hcall], .inl ?_, ?_, hdeadline⟩
      · rw [hcall]
      · rw [hdeadline]
        exact Nat.le_add_right _ _
    have hold := Hub.objectName_of_addon? hdue.installed
    have hname : w.addon.objectName = a.key.objectName := by
      rw [hdraft]
      exact hold
    refine ⟨status, w, _, hobserve, rfl, hs, hr, hdraft.trans hwith,
      hasked.ends.mono fun before after verdict hc => ?_⟩
    rw [hdeadline] at hc
    refine ⟨hc, fun stored hstored hversion hcontent => ?_⟩
    by_cases hgranted : site.hub.writes.take.1.within site.settings.callTimeout = some .granted
    · have hread : stored = old := by
        apply hcontent
        rw [hversion, hdraft]
        rfl
      have hstores := hc.stores hgranted (by rw [hname, hstored]; simp)
      rw [hname] at hstores
      right
      rw [hstores, hdraft, hwith, hread]
    · left
      rw [hc.idle (.inl hgranted)]
      exact hstored

/-- An object at its second generation, and a hub that is about to refuse a write after a while. -/
def behind : Site where
  hub := {
    addons := [Supervision.specimen "a" "x"]
    configs := [⟨"cfg.test", "v1", "tests", ⟨some "ns", "x"⟩, Generation.ofInt? 2⟩]
    writes := ⟨[.delay 5 (.refuse .conflict)], .grant⟩ }

def lagging : Assignment where
  key := ⟨"ns", "a"⟩
  fingerprint := ⟨"cfg.test/v1/tests/ns/x"⟩
  target := ⟨"cfg.test", "v1", "tests", some "ns", "x"⟩

/-- The watcher of that object waits for the refusal, and fails with it. -/
theorem records_generation_refused :
    ∃ (w : Write) (next before after : Site),
      lagging.observe "x" behind = (next, .inl w) ∧
      w.addon.reference.map (·.observed.val) = some 2 ∧ after = before ∧
      Write.Concludes w.addon 30000 (Span.ofSeconds 30) (some (.refused .conflict)) before after
        (.failed (.conflict ⟨"ns", "a"⟩)) := by
  have hdue : lagging.IsDue "x" behind.hub
      ⟨"cfg.test", "v1", "tests", ⟨some "ns", "x"⟩, Generation.ofInt? 2⟩
      (Supervision.specimen "a" "x")
      { group := "cfg.test", version := "v1", resource := "tests", ns := "ns", name := "x" } :=
    ⟨rfl, rfl, rfl, by decide, by decide⟩
  obtain ⟨-, hspec⟩ := records_generation lagging "x" (some 0) behind
  obtain ⟨status, w, next, hobserve, -, hs, hr, hdraft, hends⟩ := (hspec rfl).2 _ _ _ hdue
  obtain ⟨before, after, verdict, hc, -⟩ := hends.reaches
  refine ⟨w, next, before, after, hobserve, ?_, hc.idle (.inl (by decide)), ?_⟩
  · rw [hdraft]
    rfl
  · have hfailed := (hc.fails (.conflict ⟨"ns", "a"⟩)).mpr
      (.inr ⟨.conflict, rfl, by rw [hdraft]; rfl, fun key he => by cases he⟩)
    rw [← hfailed]
    exact hc

end Assignment

end AddonWatch

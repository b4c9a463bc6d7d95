import AddonWatch.Proofs.Recognition

namespace AddonWatch

/-- In front of the marks of before stand new ones, each of them a remark or one of that kind. -/
def Site.Leaves (kind : Mark → Prop) (old new : Site) : Prop :=
  ∃ marks, new.trace = marks ++ old.trace ∧
    ∀ mark ∈ marks, (∃ level text, mark = .logged level text) ∨ kind mark

namespace Site.Leaves

variable {kind other : Mark → Prop} {a b c : Site}

theorem nothing (h : b.trace = a.trace) : a.Leaves kind b :=
  ⟨[], h, by simp⟩

protected theorem trans (hab : a.Leaves kind b) (hbc : b.Leaves kind c) : a.Leaves kind c := by
  obtain ⟨first, hb, hfirst⟩ := hab
  obtain ⟨second, hc, hsecond⟩ := hbc
  refine ⟨second ++ first, by rw [hc, hb, List.append_assoc], fun mark hm => ?_⟩
  rcases List.mem_append.mp hm with hm | hm
  · exact hsecond mark hm
  · exact hfirst mark hm

theorem mono (h : a.Leaves kind b) (himp : ∀ mark, kind mark → other mark) : a.Leaves other b := by
  obtain ⟨marks, hb, hmarks⟩ := h
  exact ⟨marks, hb, fun mark hm => (hmarks mark hm).imp_right (himp mark)⟩

theorem mark (site : Site) {m : Mark} (h : kind m) : site.Leaves kind (site.mark m) :=
  ⟨[m], rfl, fun _ hm => .inr (List.mem_singleton.mp hm ▸ h)⟩

theorem log (site : Site) (level : Level) (text : String) :
    site.Leaves kind (site.log level text) :=
  ⟨[.logged level text], rfl, fun _ hm => .inl ⟨level, text, List.mem_singleton.mp hm⟩⟩

theorem abort (site : Site) (i : Nat) : site.Leaves kind (site.abort i) := by
  unfold Site.abort
  split
  · split <;> exact .nothing rfl
  · exact .nothing rfl

end Site.Leaves

variable {kind : Mark → Prop}

theorem Settling.Moves.leaves {s : Settling} {site next : Site} (h : s.Moves site next) :
    site.Leaves kind next := by
  cases h with
  | ended => exact .nothing rfl
  | panicked text => exact .log site .error text
  | aborts text => exact (Site.Leaves.log site .warn text).trans (.abort _ _)

namespace Closing

theorem start_leaves (roster : Roster) (grace : Span) (site : Site) :
    site.Leaves kind (Closing.start roster grace site).1 := by
  have hfold : ∀ (entries : List (AddonKey × Handle)) (site : Site),
      (entries.foldl (fun site e => site.fire e.2.child) site).trace = site.trace := by
    intro entries
    induction entries with
    | nil => exact fun site => rfl
    | cons e rest ih => exact fun site => ih (site.fire e.2.child)
  exact .nothing (hfold roster.entries site)

theorem settleOne_leaves {pending rest : List (AddonKey × Settling)} {site next : Site}
    (h : settleOne site pending = some (next, rest)) : site.Leaves kind next := by
  induction pending generalizing rest with
  | nil => simp [settleOne] at h
  | cons e others ih =>
    obtain ⟨key, settling⟩ := e
    unfold settleOne at h
    split at h
    next after hs =>
      cases h
      exact (Settling.step_moves hs).leaves
    next after hs =>
      cases h
      exact (Settling.step_moves hs).leaves.trans (.log after _ _)
    next =>
      obtain ⟨⟨after, left⟩, hs, h⟩ := Option.map_eq_some_iff.mp h
      cases h
      exact ih hs

theorem step_leaves {c : Closing} {site next : Site} {result : Option Closing}
    (h : c.step site = some (next, result)) : site.Leaves kind next := by
  unfold Closing.step at h
  split at h
  · cases h
    exact .nothing rfl
  · obtain ⟨⟨after, left⟩, hs, h⟩ := Option.map_eq_some_iff.mp h
    cases h
    exact settleOne_leaves hs

end Closing

/-- A watcher leaves the mark of the write that it commits. -/
theorem Follower.Moves.leaves {f : Follower} {i : Nat} {site next : Site}
    {result : Follower ⊕ Ending} (h : f.Moves i site next result) :
    site.Leaves (fun mark => ∃ write, f.phase = .writing write ∧
      mark = .wrote (some i) write.addon site.now) next := by
  cases h with
  | misses fault hub text => exact .log { site with hub := hub } .warn text
  | ends hub text => exact .log site .warn text
  | skips _ _ _ _ _ hnext =>
    rcases hnext with rfl | ⟨text, rfl⟩
    · exact .nothing rfl
    · exact .log site .debug text
  | commits write text old hphase =>
    have hwrote : site.Leaves (fun mark => ∃ write, f.phase = .writing write ∧
        mark = .wrote (some i) write.addon site.now) (write.commit (some i) site) :=
      .mark { site with hub := _ } ⟨write, hphase, rfl⟩
    exact hwrote.trans (.log _ .debug text)
  | fails write text => exact .log site .warn text
  | overflows write text => exact .log site .warn text
  | _ => exact .nothing rfl

theorem Site.endGuarded_leaves (site : Site) (i : Nat) (key : AddonKey) (ending : Ending) :
    site.Leaves kind (site.endGuarded i key ending) := by
  have hreport : ∀ site : Site, site.Leaves kind (site.reportExit i key) := by
    intro site
    unfold reportExit
    split
    · split
      · exact .nothing rfl
      · dsimp only
        split <;> exact .log site _ _
    · exact .nothing rfl
  unfold endGuarded
  cases ending with
  | returns =>
    exact (Leaves.nothing (b := site.finish i .returned) rfl).trans (hreport _)
  | crashes =>
    have hlog : site.Leaves kind ((site.finish i .returned).log .error
        ("Config watcher of addon " ++ key.text ++ " panicked")) :=
      .log (site.finish i .returned) _ _
    exact hlog.trans (hreport _)

theorem Site.stepChild_leaves {site next : Site} {i : Nat} {child : Child} {f : Follower}
    (hc : site.children[i]? = some child) (hb : child.body = .guarded f)
    (h : site.stepChild i = some next) : site.Leaves (fun mark => ∃ write,
      f.phase = .writing write ∧ mark = .wrote (some i) write.addon site.now) next := by
  simp only [stepChild, hc, hb, Option.bind_eq_bind, Option.bind_some] at h
  split at h
  next => cases h
  next =>
    obtain ⟨⟨after, result⟩, hstep, h⟩ := Option.map_eq_some_iff.mp h
    have hafter : site.Leaves (fun mark => ∃ write, f.phase = .writing write ∧
        mark = .wrote (some i) write.addon site.now) after := by
      cases hcancel : site.isCancelled child with
      | true =>
        rw [hcancel, Follower.step_cancelled] at hstep
        cases hstep
        exact .nothing rfl
      | false =>
        rw [hcancel] at hstep
        exact (Follower.step_moves hstep).leaves
    cases result with
    | inl f' =>
      subst h
      exact hafter.trans (.nothing rfl)
    | inr ending =>
      subst h
      exact hafter.trans (after.endGuarded_leaves i _ ending)

/-- What a reconciliation asks for and tells of is the addon of the key that it has read. -/
inductive Reconciling.Marks (site : Site) : Reconciling → Mark → Prop
  | asks (text : String) (key : AddonKey) (reference : Reference)
      (hp : AddonKey.parse text = .ok key) (hw : site.hub.wanted key = some reference) :
      Marks site (.fresh text) (.opened reference.target site.now)
  | asksNext (key : AddonKey) (addon : Addon) (reference : Reference) (settling : Settling) :
      Marks site (.replacing key addon reference settling) (.opened reference.target site.now)
  | tells (text : String) (key : AddonKey) (notice : Notice) (note : String)
      (hp : AddonKey.parse text = .ok key) :
      Marks site (.fresh text) (.noted notice key note site.now)
  | tellsBuilt (key : AddonKey) (attempt : Opening) (note : String) :
      Marks site (.opening key attempt) (.noted .started key note site.now)

namespace Reconciling

theorem announceReplacement_leaves {text : String} {key : AddonKey} (old new : Fingerprint)
    (site : Site) (hp : AddonKey.parse text = .ok key) :
    site.Leaves (Marks site (.fresh text)) (announceReplacement key old new site) := by
  unfold announceReplacement
  split
  · exact .log site _ _
  · exact (Site.Leaves.log site _ _).trans (.mark (site.log _ _) (.tells text key _ _ hp))

theorem stop_leaves {text : String} {key : AddonKey} (roster : Roster) (site : Site)
    (hp : AddonKey.parse text = .ok key) :
    site.Leaves (Marks site (.fresh text)) (stop key roster site).1 := by
  unfold stop
  split
  next => exact .nothing rfl
  next handle _ _ =>
    have htold : site.Leaves (Marks site (.fresh text)) ((site.log .info
        ("Stopping config watcher of addon " ++ key.text ++ " on " ++
          handle.fingerprint.text)).note .stopped key
            ("stopped watching " ++ handle.fingerprint.text)) :=
      (Site.Leaves.log site _ _).trans (.mark (site.log _ _) (.tells text key _ _ hp))
    exact htold.trans (.nothing rfl)

theorem openFor_leaves {work : Reconciling} (key : AddonKey) (addon : Addon)
    {reference : Reference} (roster : Roster) (site : Site)
    (h : work.Marks site (.opened reference.target site.now)) :
    site.Leaves (work.Marks site) (openFor key addon reference roster site).1 :=
  .mark { site with hub := _ } h

theorem replace_leaves {text : String} {key : AddonKey} (addon : Addon) {reference : Reference}
    (roster : Roster) (site : Site) (hp : AddonKey.parse text = .ok key)
    (hw : site.hub.wanted key = some reference) :
    site.Leaves (Marks site (.fresh text)) (replace key addon reference roster site).1 := by
  unfold replace
  split
  next => exact openFor_leaves key addon _ site (.asks text key reference hp hw)
  next handle _ _ => exact (announceReplacement_leaves _ _ site hp).trans (.nothing rfl)

theorem start_leaves (text : String) (roster : Roster) (site : Site) :
    site.Leaves (Marks site (.fresh text)) (start text roster site).1 := by
  unfold start
  split
  next => exact .nothing rfl
  next key hp =>
    unfold decision
    cases ha : site.hub.addon? key.objectName with
    | none => exact stop_leaves roster site hp
    | some addon =>
      cases hd : addon.desired with
      | none =>
        simp only [hd]
        exact stop_leaves roster site hp
      | some reference =>
        have hw : site.hub.wanted key = some reference := by simp [Hub.wanted, ha, hd]
        cases hkeep : (roster.get? key).any (·.isCurrent site reference.fingerprint) with
        | true =>
          simp only [hd, hkeep, if_true]
          exact .nothing rfl
        | false =>
          simp only [hd, hkeep, Bool.false_eq_true, if_false]
          exact replace_leaves addon roster site hp hw

theorem step_leaves {work : Reconciling} {site next : Site} {roster roster' : Roster}
    {result : Reconciling ⊕ Verdict} (h : work.step roster site = some (next, roster', result)) :
    site.Leaves (work.Marks site) next := by
  have hmoves := step_moves h
  cases work with
  | fresh text =>
    obtain rfl : (start text roster site).1 = next := congrArg Prod.fst (Option.some.inj h)
    exact start_leaves text roster site
  | stopping settling =>
    cases hmoves with
    | stopped _ _ hs => exact hs.leaves
  | replacing key addon reference settling =>
    cases hmoves with
    | replaced _ _ _ _ after hs =>
      have hsame : after.now = site.now := hs.windsDown.now
      have hsettled : site.Leaves (Marks site (.replacing key addon reference settling)) after :=
        hs.leaves
      refine hsettled.trans ?_
      exact .mark { after with hub := _ } (hsame ▸ .asksNext key addon reference settling)
  | opening key attempt =>
    cases hmoves with
    | builds _ _ line note =>
      have hlogged : site.Leaves (Marks site (.opening key attempt))
          ((attempt.begin site).1.log .info line) :=
        .log (attempt.begin site).1 _ _
      exact hlogged.trans (.mark _ (.tellsBuilt key attempt note))
    | _ => exact .nothing rfl

end Reconciling

namespace Desk

theorem Concludes.leaves {desk next : Desk} {key : String} {site after : Site} {verdict : Verdict}
    (h : desk.Concludes key site verdict after next) : site.Leaves kind after := by
  cases h with
  | forgets _ _ level text _ _ _ hsite =>
    rcases hsite with rfl | rfl
    · exact .nothing rfl
    · exact .log site level text
  | retries => exact .log site _ _
  | overreaches => exact .log site _ _
  | loses _ level text _ hsite =>
    rcases hsite with rfl | rfl
    · exact .nothing rfl
    · exact .log site level text
  | breaks => exact .nothing rfl

/-- A desk leaves marks of the reconciliation that it is at. -/
theorem step_leaves {desk desk' : Desk} {isSealed : Bool} {site next : Site}
    (h : desk.step isSealed site = some (next, desk')) :
    site.Leaves (fun mark => ∃ text work rest, desk.phase = .reconciling text work rest ∧
      work.Marks site mark) next := by
  cases hphase : desk.phase with
  | reconciling text work rest =>
    simp only [step, hphase] at h
    split at h
    next =>
      cases h
      exact .nothing rfl
    next =>
      obtain ⟨⟨after, roster, result⟩, hstep, h⟩ := Option.map_eq_some_iff.mp h
      have hleft := (Reconciling.step_leaves hstep).mono fun mark hm =>
        (⟨text, work, rest, rfl, hm⟩ : ∃ text' work' rest',
          DeskPhase.reconciling text work rest = .reconciling text' work' rest' ∧
            work'.Marks site mark)
      cases result with
      | inl work' =>
        cases h
        exact hleft
      | inr verdict =>
        have hc := conclude_concludes { desk with roster := roster, phase := .working rest } text
          after verdict
        dsimp only at h
        rw [h] at hc
        exact hleft.trans hc.leaves
  | _ =>
    have hm := step_moves h
    cases hm with
    | closes => exact Closing.start_leaves _ _ _
    | settles _ _ _ _ hc => exact Closing.step_leaves hc
    | finishes _ _ _ hc => exact Closing.step_leaves hc
    | goesOn _ _ _ _ _ _ hother => simp [hphase] at hother
    | concludes _ _ _ _ _ _ _ _ hother => simp [hphase] at hother
    | _ => exact .nothing rfl

end Desk

namespace Supervision

theorem dispatch_leaves (s : Supervision) (text : String) :
    s.site.Leaves kind (s.dispatch text).site := by
  unfold dispatch
  dsimp only
  split
  · exact .log s.site _ _
  · exact .nothing rfl

theorem foldl_leaves {α : Type} {f : Supervision → α → Supervision}
    (hf : ∀ (s : Supervision) item, s.site.Leaves kind (f s item).site) (items : List α)
    (s : Supervision) :
    s.site.Leaves kind (items.foldl f s).site := by
  induction items generalizing s with
  | nil => exact .nothing rfl
  | cons item rest ih => exact (hf s item).trans (ih (f s item))

theorem resync_leaves (s : Supervision) : s.site.Leaves kind s.resync.site :=
  foldl_leaves (fun s (q : ObjectName) => s.dispatch_leaves q.text) _ s

/-- The leading task makes remarks, and no other marks. -/
theorem LeadMoves.leaves {s next : Supervision} (h : s.LeadMoves next) :
    s.site.Leaves kind next.site := by
  cases h with
  | begins =>
    unfold begin
    dsimp only
    split <;> exact .log { s.site with hub := _ } _ _
  | stops _ _ _ text => exact (Site.Leaves.log s.site .info text).trans (.nothing rfl)
  | reports _ _ _ key rest =>
    exact ({ s with site := { s.site with exits := rest } } : Supervision).dispatch_leaves key
  | sees _ _ sighting hub =>
    exact ({ s with site := { s.site with hub := hub } } : Supervision).dispatch_leaves _
  | resyncs _ _ _ hub text =>
    have hlogged : s.site.Leaves kind (({ s.site with hub := hub } : Site).log .warn text) :=
      .log { s.site with hub := hub } _ _
    exact hlogged.trans (resync_leaves _)
  | outlives _ _ _ text => exact .log s.site .warn text
  | ticks => exact s.resync_leaves
  | joins =>
    refine foldl_leaves (fun s e => ?_) s.desks.zipIdx s
    unfold reportCrash
    split
    · exact .log s.site _ _
    · exact .nothing rfl
  | _ => exact .nothing rfl

end Supervision

end AddonWatch

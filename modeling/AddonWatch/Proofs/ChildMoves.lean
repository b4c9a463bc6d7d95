import AddonWatch.Proofs.FollowerMoves

namespace AddonWatch

/-- A watcher changes nothing that all tasks share but the hub, and leaves marks. -/
theorem Follower.Moves.site_eq {f : Follower} {i : Nat} {site next : Site}
    {result : Follower ⊕ Ending} (h : f.Moves i site next result) :
    ∃ hub trace, next = { site with hub := hub, trace := trace } := by
  cases h with
  | skips _ _ _ _ _ hnext =>
    rcases hnext with rfl | ⟨text, rfl⟩
    · exact ⟨_, _, rfl⟩
    · exact ⟨_, _, rfl⟩
  | _ => exact ⟨_, _, rfl⟩

theorem Follower.Moves.assignment {f f' : Follower} {i : Nat} {site next : Site}
    (h : f.Moves i site next (.inl f')) : f'.assignment = f.assignment ∧ f'.feed = f.feed := by
  cases h <;> exact ⟨rfl, rfl⟩

/-- Cancelled or not, a watcher changes nothing else that all tasks share. -/
theorem Follower.step_shared {f : Follower} {i : Nat} {cancelled : Bool} {site next : Site}
    {result : Follower ⊕ Ending} (h : f.step i cancelled site = some (next, result)) :
    ∃ hub trace, next = { site with hub := hub, trace := trace } := by
  cases cancelled with
  | true =>
    rw [step_cancelled] at h
    cases h
    exact ⟨_, _, rfl⟩
  | false => exact (step_moves h).site_eq

theorem Follower.step_assignment {f f' : Follower} {i : Nat} {cancelled : Bool} {site next : Site}
    (h : f.step i cancelled site = some (next, .inl f')) : f'.assignment = f.assignment := by
  cases cancelled with
  | true =>
    rw [step_cancelled] at h
    cases h
  | false => exact (step_moves h).assignment.1

/-- What the task of a watcher that reports its own end can do next. -/
inductive Site.ChildMoves (site : Site) (i : Nat) (child : Child) (f : Follower) : Site → Prop
  | stops (hc : site.isCancelled child = true) :
      ChildMoves site i child f (site.finish i .returned)
  | goesOn (next : Site) (f' : Follower) (hc : site.isCancelled child = false)
      (hm : f.Moves i site next (.inl f')) :
      ChildMoves site i child f (next.setChild i (·.withFollower f'))
  | ends (next : Site) (ending : Ending) (trace : List Mark)
      (hc : site.isCancelled child = false) (hm : f.Moves i site next (.inr ending))
      (hw : ({ next with trace := trace } : Site).writes = next.writes) :
      ChildMoves site i child f { (next.finish i .returned).fire i with
        exits :=
          if next.reportsExits then next.exits ++ [f.assignment.key.text] else next.exits
        trace := trace }

namespace Site

theorem getElem?_finish_self {site : Site} {i : Nat} {child : Child} (condition : Condition)
    (hc : site.children[i]? = some child) :
    (site.finish i condition).children[i]? = some { child with condition := condition } := by
  rw [children_finish, getElem?_setChild, if_pos rfl, hc]
  rfl

theorem reportExit_of_cancelled {site : Site} {i : Nat} {child : Child} {key : AddonKey}
    (hc : site.children[i]? = some child) (hn : site.isCancelled child = true) :
    site.reportExit i key = site := by
  simp [reportExit, hc, hn]

theorem reportExit_of_live {site : Site} {i : Nat} {child : Child} (key : AddonKey)
    (hc : site.children[i]? = some child) (hn : site.isCancelled child = false) :
    site.reportExit i key = { site.fire i with
      exits := if site.reportsExits then site.exits ++ [key.text] else site.exits
      trace := .logged .warn ("Config watcher of addon " ++ key.text ++ " stopped unexpectedly") ::
        site.trace } := by
  simp only [reportExit, hc, hn, Bool.false_eq_true, if_false]
  cases hr : site.reportsExits <;> simp [log, mark, fire, setChild, hr]

/-- The end of a watcher that nothing has cancelled: from then on it counts as cancelled, and its
key is reported. -/
theorem endGuarded_eq {site : Site} {i : Nat} {child : Child} (key : AddonKey) (ending : Ending)
    (hc : site.children[i]? = some child) (hn : site.isCancelled child = false) :
    ∃ trace, site.endGuarded i key ending =
        { (site.finish i .returned).fire i with
          exits := if site.reportsExits then site.exits ++ [key.text] else site.exits
          trace := trace } ∧
      ({ site with trace := trace } : Site).writes = site.writes := by
  have hf := getElem?_finish_self .returned hc
  cases ending with
  | returns =>
    simp only [endGuarded]
    rw [reportExit_of_live key hf hn]
    exact ⟨_, rfl, rfl⟩
  | crashes =>
    have hlog : ((site.finish i .returned).log .error ("Config watcher of addon " ++ key.text ++
        " panicked")).children[i]? = some { child with condition := .returned } := hf
    simp only [endGuarded]
    rw [reportExit_of_live key hlog hn]
    exact ⟨_, rfl, rfl⟩

theorem stepChild_moves {site next : Site} {i : Nat} (h : site.stepChild i = some next) :
    ∃ child, site.children[i]? = some child ∧ child.condition = .running ∧
      ∀ f, child.body = .guarded f → site.ChildMoves i child f next := by
  obtain ⟨child, hc, h⟩ := Option.bind_eq_some_iff.mp h
  split at h
  next => cases h
  next hrun =>
    refine ⟨child, hc, by simpa [Child.isFinished] using hrun, ?_⟩
    intro f hbody
    simp only [hbody] at h
    obtain ⟨⟨after, result⟩, hstep, h⟩ := Option.map_eq_some_iff.mp h
    cases hcancel : site.isCancelled child with
    | true =>
      rw [hcancel, Follower.step_cancelled] at hstep
      cases hstep
      subst h
      have hf := getElem?_finish_self .returned hc
      have : (site.finish i .returned).isCancelled { child with condition := .returned } = true :=
        hcancel
      simp only [endGuarded]
      rw [reportExit_of_cancelled hf this]
      exact .stops hcancel
    | false =>
      rw [hcancel] at hstep
      have hm := Follower.step_moves hstep
      cases result with
      | inl f' =>
        subst h
        exact .goesOn after f' hcancel hm
      | inr ending =>
        have hc' : after.children[i]? = some child ∧ after.isCancelled child = false := by
          obtain ⟨hub, trace, rfl⟩ := hm.site_eq
          exact ⟨hc, hcancel⟩
        obtain ⟨trace, he, hw⟩ := endGuarded_eq f.assignment.key ending hc'.1 hc'.2
        subst h
        dsimp only
        rw [he]
        exact .ends after ending trace hcancel hm hw

end Site

end AddonWatch

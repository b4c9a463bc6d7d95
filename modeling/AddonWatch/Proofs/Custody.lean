import AddonWatch.Proofs.Silence

namespace AddonWatch

def Roster.children (roster : Roster) : List Nat :=
  roster.entries.map fun e => e.2.child

/-- The child that a reconciliation has cancelled and waits for. -/
def Reconciling.awaited : Reconciling → List Nat
  | .stopping settling => [settling.handle.child]
  | .replacing _ _ _ settling => [settling.handle.child]
  | _ => []

/-- What a reconciliation that goes on then waits for. -/
def Reconciling.stillAwaited : Reconciling ⊕ Verdict → List Nat
  | .inl work => work.awaited
  | .inr _ => []

def DeskPhase.awaited : DeskPhase → List Nat
  | .reconciling _ work _ => work.awaited
  | .closing c => c.pending.map fun e => e.2.handle.child
  | _ => []

namespace Desk

/-- The children that a desk answers for: those registered with it, and those that it has cancelled
and waits for. -/
def charges (desk : Desk) : List Nat :=
  desk.roster.children ++ desk.phase.awaited

/-- The desk is in the middle of a reconciliation and waits for that child in it. -/
def WaitsFor (desk : Desk) (i : Nat) : Prop :=
  ∃ text work rest, desk.phase = .reconciling text work rest ∧ i ∈ work.awaited

end Desk

namespace Roster

/-- Taking a key out takes its own child out, and no other. -/
theorem mem_children_erase {roster : Roster} (key : AddonKey) (hn : roster.keys.Nodup) {i : Nat}
    (hi : i ∈ roster.children) :
    (∃ handle, roster.get? key = some handle ∧ handle.child = i) ∨
      i ∈ (roster.erase key).children := by
  obtain ⟨e, he, rfl⟩ := List.mem_map.mp hi
  by_cases hk : e.1 = key
  · subst hk
    exact .inl ⟨e.2, lookup_of_mem hn he, rfl⟩
  · exact .inr (List.mem_map_of_mem (List.mem_filter.mpr ⟨he, by simpa using hk⟩))

theorem mem_children_erase_of_some {roster : Roster} {key : AddonKey} {handle : Handle}
    (hn : roster.keys.Nodup) (hg : roster.get? key = some handle) {i : Nat}
    (hi : i ∈ roster.children) : i ∈ (roster.erase key).children ++ [handle.child] := by
  rcases mem_children_erase key hn hi with ⟨other, ho, rfl⟩ | hkept
  · obtain rfl : handle = other := Option.some.inj (hg.symm.trans ho)
    exact List.mem_append_right _ List.mem_cons_self
  · exact List.mem_append_left _ hkept

theorem mem_children_erase_of_none {roster : Roster} {key : AddonKey} (hn : roster.keys.Nodup)
    (hg : roster.get? key = none) {i : Nat} (hi : i ∈ roster.children) :
    i ∈ (roster.erase key).children := by
  rcases mem_children_erase key hn hi with ⟨handle, hsome, -⟩ | hkept
  · rw [hg] at hsome
    cases hsome
  · exact hkept

end Roster

namespace Reconciling.Moves

variable {site next : Site} {roster roster' : Roster} {work : Reconciling} {text : String}
  {result : Reconciling ⊕ Verdict}

/-- A reconciliation loses sight of no child that runs on: one that it takes out of the roster is
waited for until it has ended. -/
theorem charges (h : work.Moves site roster next roster' result) (hfit : work.Fits site roster text)
    (hn : roster.keys.Nodup) {i : Nat} (hi : i ∈ roster.children ++ work.awaited)
    (hrun : next.isFinished i = false) :
    i ∈ roster'.children ++ stillAwaited result := by
  have hended : ∀ {settling : Settling} {mid : Site}, settling.Moves site mid →
      mid.isFinished i = false → i ≠ settling.handle.child := by
    rintro settling mid hs hmid rfl
    rw [hs.finished] at hmid
    cases hmid
  cases h with
  | absent _ key _ _ hg =>
    have hold : i ∈ roster.children := by simpa [awaited] using hi
    exact List.mem_append_left _ (Roster.mem_children_erase_of_none hn hg hold)
  | stops _ key handle line note _ _ hg =>
    have hold : i ∈ roster.children := by simpa [awaited] using hi
    exact Roster.mem_children_erase_of_some hn hg hold
  | asks _ key addon reference _ _ _ hg =>
    have hold : i ∈ roster.children := by simpa [awaited] using hi
    exact List.mem_append_left _ (Roster.mem_children_erase_of_none hn hg hold)
  | replaces _ key addon reference handle trace _ _ _ hg =>
    have hold : i ∈ roster.children := by simpa [awaited] using hi
    exact Roster.mem_children_erase_of_some hn hg hold
  | stopped settling _ hs =>
    have hne := hended hs hrun
    simpa [awaited, stillAwaited, hne] using hi
  | replaced key addon reference settling after hs =>
    have hne := hended hs hrun
    simpa [awaited, stillAwaited, hne] using hi
  | builds key attempt line note =>
    have hold : i ∈ roster.children := by simpa [awaited] using hi
    have hkept := Roster.mem_children_erase_of_none hn hfit.2.2.1 hold
    exact List.mem_append_left _ (List.mem_cons_of_mem _ hkept)
  | _ => exact hi

/-- The only child that a reconciliation starts is the one that it registers for its key. -/
theorem newcomer (h : work.Moves site roster next roster' result)
    (hfit : work.Fits site roster text) {i : Nat} {a : Assignment}
    (hi : site.children.length ≤ i) (ha : next.assignment? i = some a) :
    i ∈ roster'.children ∧ a.key.text = text := by
  have hlt := Site.lt_length_of_assignment? ha
  rcases h.ages_or_begins with hages | ⟨key, attempt, rfl, hages⟩
  · have hlen := hages.length
    omega
  · cases h with
    | builds _ _ line note =>
      obtain ⟨-, ht, -, hk⟩ := hfit
      have hlen := hages.length
      rw [attempt.length_begin] at hlen
      obtain rfl : i = site.children.length := by omega
      have hbegun := (hages.assignment site.children.length).symm.trans ha
      rw [attempt.assignment?_begin] at hbegun
      cases hbegun
      exact ⟨List.mem_cons_self, hk ▸ ht.symm⟩
    | _ => exact absurd hlt (Nat.not_lt.mpr hi)

end Reconciling.Moves

namespace Desk.Moves

variable {desk desk' : Desk} {isSealed : Bool} {site site' : Site} {mine : String → Prop} {i : Nat}

/-- A desk goes on to answer for a child that runs on, unless it breaks down, or drops the
reconciliation that waits for the child because the scope is cancelled. -/
theorem charges (h : desk.Moves isSealed site site' desk') (ho : desk.Orderly site mine)
    (hi : i ∈ desk.charges) (hrun : site'.isFinished i = false) :
    i ∈ desk'.charges ∨ desk'.isDown = true ∨ site.halted = true ∧ desk.WaitsFor i := by
  have hidle : ∀ {phase : DeskPhase}, desk.phase = phase → phase.awaited = [] →
      i ∈ desk.roster.children := by
    rintro _ rfl hnone
    simpa [Desk.charges, hnone] using hi
  cases h with
  | closes alarms hphase =>
    left
    have hold := hidle hphase rfl
    simpa [Desk.charges, DeskPhase.awaited, Closing.start, Roster.children] using hold
  | wakes alarm alarms hphase => exact .inl (List.mem_append_left _ (hidle hphase rfl))
  | takes key rest alarms hphase => exact .inl (List.mem_append_left _ (hidle hphase rfl))
  | looks rest alarms hphase => exact .inl (List.mem_append_left _ (hidle hphase rfl))
  | turns alarms hphase => exact .inl (List.mem_append_left _ (hidle hphase rfl))
  | rests hphase => exact .inl (List.mem_append_left _ (hidle hphase rfl))
  | begins key rest hphase => exact .inl (List.mem_append_left _ (hidle hphase rfl))
  | drops hh hphase =>
    rcases hphase with ⟨keys, hphase⟩ | ⟨text, work, rest, hphase⟩
    · exact .inl (List.mem_append_left _ (hidle hphase rfl))
    · rcases List.mem_append.mp hi with hold | hwait
      · exact .inl (List.mem_append_left _ hold)
      · rw [hphase] at hwait
        exact .inr (.inr ⟨hh, text, work, rest, hphase, hwait⟩)
  | goesOn text work work' rest next roster hphase hh hm =>
    left
    rw [Desk.charges, hphase] at hi
    exact hm.charges (ho.work text work rest hphase) ho.nodup hi hrun
  | concludes text work rest next after roster verdict desk' hphase hh hm hc =>
    rw [Desk.charges, hphase] at hi
    have hkeeps := ho.retries.working roster rest
    have hafter := hc.windsDown.ages.running i hrun
    have hkept := hm.charges (ho.work text work rest hphase) ho.nodup hi hafter
    rcases hc.frame hkeeps with ⟨message, rfl⟩ | ⟨-, -, hroster, -⟩
    · exact .inr (.inl rfl)
    · left
      rw [Desk.charges, hroster]
      exact List.mem_append_left _ (by simpa [Reconciling.stillAwaited] using hkept)
  | settles closing closing' next hphase hc =>
    left
    rw [Desk.charges, hphase] at hi
    rcases List.mem_append.mp hi with hold | hwait
    · exact List.mem_append_left _ hold
    · obtain ⟨e, he, rfl⟩ := List.mem_map.mp hwait
      rcases Closing.step_finished hc e he with hpending | hended
      · exact List.mem_append_right _ (List.mem_map_of_mem hpending)
      · rw [hended] at hrun
        cases hrun
  | finishes closing next hphase hc =>
    refine .inl (List.mem_append_left _ (hidle hphase ?_))
    simp [DeskPhase.awaited, Closing.pending_of_step_none hc]

/-- A child that a desk starts is of the desk's partition, and the desk answers for it unless it
breaks down. -/
theorem newcomer (h : desk.Moves isSealed site site' desk') (ho : desk.Orderly site mine)
    {a : Assignment} (hi : site.children.length ≤ i) (ha : site'.assignment? i = some a) :
    (i ∈ desk'.charges ∨ desk'.isDown = true) ∧ mine a.key.text := by
  have hlt := Site.lt_length_of_assignment? ha
  cases h with
  | goesOn text work work' rest next roster hphase hh hm =>
    obtain ⟨hnew, rfl⟩ := hm.newcomer (ho.work text work rest hphase) hi ha
    exact ⟨.inl (List.mem_append_left _ hnew), ho.texts _ (by simp [hphase, DeskPhase.texts])⟩
  | concludes text work rest next after roster verdict desk' hphase hh hm hc =>
    have hkeeps := ho.retries.working roster rest
    have hbefore := (hc.windsDown.ages.assignment i).symm.trans ha
    obtain ⟨hnew, rfl⟩ := hm.newcomer (ho.work text work rest hphase) hi hbefore
    refine ⟨?_, ho.texts _ (by simp [hphase, DeskPhase.texts])⟩
    rcases hc.frame hkeeps with ⟨message, rfl⟩ | ⟨-, -, hroster, -⟩
    · exact .inr rfl
    · left
      rw [Desk.charges, hroster]
      exact List.mem_append_left _ hnew
  | closes =>
    have hlen := (Closing.start_windsDown desk.roster site.settings.cancelGrace site).ages.length
    omega
  | settles closing closing' next hphase hc =>
    have hlen := (Closing.step_windsDown hc).ages.length
    omega
  | finishes closing next hphase hc =>
    have hlen := (Closing.step_windsDown hc).ages.length
    omega
  | _ => exact absurd hlt (Nat.not_lt.mpr hi)

end Desk.Moves

namespace Supervision

variable {w : Surroundings} {s next : Supervision} {i : Nat} {a : Assignment}

/-- Once in the run a desk waited for that child in a reconciliation while the scope was cancelled
already. Such a desk drops the reconciliation, and with it the child. -/
def IsDropped (w : Surroundings) (s : Supervision) (i : Nat) : Prop :=
  ∃ (mid : Supervision) (desk : Desk), mid.Reached w ∧ mid.Later w s ∧ desk ∈ mid.desks ∧
    mid.site.halted = true ∧ desk.WaitsFor i

/-- The desk that the assignment belongs to answers for the child, or has broken down. -/
def Charges (s : Supervision) (i : Nat) (a : Assignment) : Prop :=
  ∃ desk : Desk, s.desks[s.partition a.key.text]? = some desk ∧
    (desk.isDown = true ∨ i ∈ desk.charges)

theorem IsDropped.moves (h : s.IsDropped w i) (hm : s.Moves w next) : next.IsDropped w i := by
  obtain ⟨mid, desk, hr, hl, hd⟩ := h
  exact ⟨mid, desk, hr, .next s next hl hm, hd⟩

theorem Charges.sends {more : Nat → List Work} (h : s.Charges i a) (hs : s.Sends next more) :
    next.Charges i a := by
  obtain ⟨desk, hd, hi⟩ := h
  refine ⟨{ desk with inbox := desk.inbox ++ more (s.partition a.key.text) }, ?_, hi⟩
  rw [hs.partition_eq, hs.desks, hd]
  rfl

theorem Charges.moves (h : s.Charges i a) (hr : s.Reached w) (hm : s.Moves w next)
    (hrun : next.site.isFinished i = false) : next.IsDropped w i ∨ next.Charges i a := by
  cases hm with
  | task t _ hstep =>
    cases t with
    | child j =>
      obtain ⟨site, -, rfl⟩ := stepChild_cases hstep
      exact .inr h
    | desk j =>
      obtain ⟨desk, desk', site, hd, hmoves, rfl⟩ := stepDesk_cases hstep
      obtain ⟨found, hfound, hi⟩ := h
      by_cases hp : s.partition a.key.text = j
      · subst hp
        obtain rfl : desk = found := Option.some.inj (hd.symm.trans hfound)
        have hcharged := hi.resolve_left hmoves.not_down
        have hset := List.getElem?_set_self (a := desk') (List.getElem?_eq_some_iff.mp hd).1
        rcases hmoves.charges (hr.orderly.desks _ desk hd) hcharged hrun with
          hkept | hcrashed | ⟨hh, hwait⟩
        · exact .inr ⟨desk', by rw [partition_set_desk]; exact hset, .inr hkept⟩
        · exact .inr ⟨desk', by rw [partition_set_desk]; exact hset, .inl hcrashed⟩
        · exact .inl ⟨s, desk, hr, .next s _ .refl (.task (.desk _) _ hstep),
            List.mem_of_getElem? hd, hh, hwait⟩
      · refine .inr ⟨found, ?_, hi⟩
        rw [partition_set_desk]
        exact (List.getElem?_set_ne (Ne.symm hp)).trans hfound
    | lead =>
      rcases (stepLead_moves hstep).desks with ⟨call, deadline, hlead, rfl⟩ | ⟨more, hs⟩
      · obtain ⟨desk, hd, -⟩ := h
        rw [(hr.orderly.unopened (.inr ⟨call, deadline, hlead⟩)).1] at hd
        cases hd
      · exact .inr (h.sends hs)
  | _ => exact .inr h

/-- Only a desk starts children, and it answers for them. -/
theorem Reached.charges_newcomer (hr : s.Reached w) (hm : s.Moves w next)
    (hi : s.site.children.length ≤ i) (ha : next.site.assignment? i = some a) :
    next.Charges i a := by
  have hlt := Site.lt_length_of_assignment? ha
  cases hm with
  | task t _ hstep =>
    cases t with
    | child j =>
      obtain ⟨site, child, f, rfl, hc, hb, -, hmoves⟩ :=
        stepChild_moves hstep hr.orderly.staffed
      have hlen := (hmoves.ages hc hb).length
      exact absurd hlt (by dsimp only; omega)
    | desk j =>
      obtain ⟨desk, desk', site, hd, hmoves, rfl⟩ := stepDesk_cases hstep
      obtain ⟨hnew, hmine⟩ := hmoves.newcomer (hr.orderly.desks j desk hd) hi ha
      refine ⟨desk', ?_, hnew.symm⟩
      rw [partition_set_desk, hmine]
      exact List.getElem?_set_self (List.getElem?_eq_some_iff.mp hd).1
    | lead =>
      obtain ⟨hub, trace, exits, he, -⟩ := (stepLead_moves hstep).shared
      rw [he] at hlt
      exact absurd hlt (Nat.not_lt.mpr hi)
  | _ => exact absurd hlt (Nat.not_lt.mpr hi)

/-- For a child that runs on the desk of its key answers, or that desk is down, or a reconciliation
that waited for it was dropped when the scope had been cancelled. -/
theorem Reached.charged (h : s.Reached w) (ha : s.site.assignment? i = some a)
    (hrun : s.site.isFinished i = false) : s.IsDropped w i ∨ s.Charges i a := by
  induction h with
  | start s hf => simp [Site.assignment?, hf.children] at ha
  | next s next hr hm ih =>
    have hg := hr.orderly.grows hm
    rcases Nat.lt_or_ge i s.site.children.length with hi | hi
    · rcases ih ((hg.assignment i hi).symm.trans ha) (hg.running i hi hrun) with hdrop | hcharged
      · exact .inl (hdrop.moves hm)
      · exact hcharged.moves hr hm hrun
    · exact .inr (hr.charges_newcomer hm hi ha)

end Supervision

end AddonWatch

import AddonWatch.Proofs.DecisionTable
import AddonWatch.Proofs.Sessions

namespace AddonWatch

namespace Site

variable {site last : Site} {i : Nat}

/-- A child that has ended is not polled any more. -/
theorem stepChild_of_isFinished (h : site.isFinished i = true) : site.stepChild i = none := by
  cases hc : site.children[i]? with
  | none => simp [stepChild, hc]
  | some child =>
    rw [isFinished_of_getElem? hc] at h
    simp [stepChild, hc, h]

/-- Every watcher that was ever started for that key has ended by itself or was stopped for good. -/
def IsClear (site : Site) (key : AddonKey) : Prop :=
  ∀ i a, site.assignment? i = some a → a.key = key → site.isFinished i = true

/-- Once ended, the watchers of a key stay so, whatever children do. -/
theorem IsClear.later {a : Assignment} (h : site.IsClear a.key) (hg : site.Grows last)
    (ha : site.assignment? i = some a) :
    last.isFinished i = true ∧ last.stepChild i = none := by
  have hdone := hg.finished (lt_length_of_assignment? ha) (h i a ha rfl)
  exact ⟨hdone, stepChild_of_isFinished hdone⟩

end Site

namespace Site.Leaves

variable {kind : Mark → Prop} {old new : Site} {marks : List Mark}

/-- Whatever the marks between two sites are said to be, each of them is a remark or of that
kind. -/
theorem of_mem (h : old.Leaves kind new) (ht : new.trace = marks ++ old.trace) {mark : Mark}
    (hm : mark ∈ marks) : (∃ level text, mark = .logged level text) ∨ kind mark := by
  obtain ⟨others, hothers, hmarks⟩ := h
  obtain rfl : marks = others := List.append_cancel_right (ht.symm.trans hothers)
  exact hmarks mark hm

theorem not_asked (h : old.Leaves (fun _ => False) new) (ht : new.trace = marks ++ old.trace)
    {target : Target} {time : Nat} : .opened target time ∉ marks := by
  intro hm
  obtain ⟨level, text, hlogged⟩ := (h.of_mem ht hm).resolve_right id
  cases hlogged

end Site.Leaves

namespace Reconciling

variable {work : Reconciling} {site next : Site} {roster roster' : Roster}
  {result : Reconciling ⊕ Verdict} {marks : List Mark} {target : Target} {time : Nat}

/-- A watcher is started by a call that has waited for its object, and there is only one. -/
theorem Moves.starts (h : work.Moves site roster next roster' result) {k : Nat} {a : Assignment}
    (hk : site.children.length ≤ k) (ha : next.assignment? k = some a) :
    ∃ key attempt, work = .opening key attempt ∧ attempt.assignment = a ∧
      k = site.children.length := by
  have hlt := Site.lt_length_of_assignment? ha
  rcases h.ages_or_begins with hages | ⟨key, attempt, hwork, hages⟩
  · have hlen := hages.length
    omega
  · have hlen := hages.length
    rw [attempt.length_begin] at hlen
    obtain rfl : k = site.children.length := by omega
    have hbegun := (hages.assignment _).symm.trans ha
    rw [attempt.assignment?_begin] at hbegun
    exact ⟨key, attempt, hwork, Option.some.inj hbegun, rfl⟩

theorem not_asked {old new : Site} (remarks : List Mark) (ht : new.trace = marks ++ old.trace)
    (hr : new.trace = remarks ++ old.trace)
    (hn : remarks.filterMap Mark.asked? = []) : .opened target time ∉ marks := by
  obtain rfl : marks = remarks := List.append_cancel_right (ht.symm.trans hr)
  intro hm
  have hnone := List.filterMap_eq_nil_iff.mp hn _ hm
  cases hnone

/-- The object that is asked for is the one that the call then waits for. -/
theorem asks_of_openFor {site after : Site} {key : AddonKey} {addon : Addon}
    {reference : Reference} (h : openFor key addon reference roster after = (next, roster', result))
    (ht : next.trace = marks ++ site.trace) (hl : site.Leaves (fun _ => False) after)
    (hm : .opened target time ∈ marks) :
    ∃ attempt, result = .inl (.opening key attempt) ∧ attempt.assignment.target = target := by
  cases h
  refine ⟨_, rfl, ?_⟩
  have hopened : site.Leaves (fun mark => mark = .opened reference.target after.now)
      (Opening.start addon.key reference after).1 :=
    (hl.mono fun _ hfalse => hfalse.elim).trans (.mark { after with hub := _ } rfl)
  rcases hopened.of_mem ht hm with ⟨_, _, hlogged⟩ | hasked
  · cases hlogged
  · cases hasked
    rfl

theorem asks_of_start {text : String} (h : start text roster site = (next, roster', result))
    (ht : next.trace = marks ++ site.trace) (hm : .opened target time ∈ marks) :
    ∃ key attempt, result = .inl (.opening key attempt) ∧ attempt.assignment.target = target := by
  have hsame : next = site → False := fun he => not_asked [] ht (congrArg Site.trace he) rfl hm
  have hstop : ∀ key, stop key roster site = (next, roster', result) → False := by
    intro key hstop
    cases hg : roster.get? key with
    | none =>
      simp only [stop, Roster.remove, hg] at hstop
      exact hsame (congrArg Prod.fst hstop).symm
    | some handle =>
      simp only [stop, Roster.remove, hg] at hstop
      cases hstop
      exact not_asked [.noted .stopped key _ _, .logged .info _] ht rfl rfl hm
  unfold start at h
  split at h
  next fault hp => exact (hsame (congrArg Prod.fst h).symm).elim
  next key hp =>
    split at h
    next => exact (hstop key h).elim
    next => exact (hsame (congrArg Prod.fst h).symm).elim
    next addon reference _ =>
      cases hg : roster.get? key with
      | none =>
        simp only [replace, Roster.remove, hg] at h
        exact ⟨key, asks_of_openFor h ht (.nothing rfl) hm⟩
      | some handle =>
        simp only [replace, Roster.remove, hg] at h
        rcases announceReplacement_cases key handle.fingerprint reference.fingerprint site with
          ⟨-, line, he⟩ | ⟨-, line, note, he⟩
        · rw [he] at h
          cases h
          exact absurd hm (not_asked [.logged .warn line] ht rfl rfl)
        · rw [he] at h
          cases h
          exact absurd hm (not_asked [.noted .changed key note _, .logged .info line] ht rfl rfl)

/-- A poll that asks for an object leaves the call waiting for that object. -/
theorem asks_of_step (h : work.step roster site = some (next, roster', result))
    (ht : next.trace = marks ++ site.trace) (hm : .opened target time ∈ marks) :
    ∃ key attempt, result = .inl (.opening key attempt) ∧ attempt.assignment.target = target := by
  cases work with
  | fresh text => exact asks_of_start (Option.some.inj h) ht hm
  | stopping settling =>
    obtain ⟨⟨after, inTime⟩, hstep, h⟩ := Option.map_eq_some_iff.mp h
    cases h
    exact absurd hm ((Settling.step_moves hstep).leaves.not_asked ht)
  | replacing key addon reference settling =>
    obtain ⟨⟨after, inTime⟩, hstep, h⟩ := Option.map_eq_some_iff.mp h
    exact ⟨key, asks_of_openFor h ht (Settling.step_moves hstep).leaves hm⟩
  | opening key attempt =>
    cases moves_of_opening h with
    | builds _ _ line note =>
      exact absurd hm (not_asked [.noted .started key note _, .logged .info line] ht rfl rfl)
    | _ => exact absurd hm (not_asked [] ht rfl rfl)

end Reconciling

namespace Session

variable {mine : String → Prop} {s next last : Session} {text : String} {key : AddonKey}
  {attempt : Opening}

/-- A call that waits for the object of a new watcher has seen all former watchers of the key
end. -/
theorem Orderly.clear (h : s.Orderly mine) (hf : s.forsaken = false)
    (hc : s.call = some (text, .opening key attempt)) :
    s.site.IsClear attempt.assignment.key := by
  intro i a ha hkey
  obtain ⟨hmine, -, htext, habsent, hown⟩ := h.work text _ hc
  rw [hown] at hkey
  by_contra hrun
  have hcovered := h.covers hf i a ha (hkey ▸ htext ▸ hmine) (eq_false_of_ne_true hrun)
  simp only [awaited, hc, Reconciling.awaited, List.append_nil] at hcovered
  obtain ⟨e, he, rfl⟩ := List.mem_map.mp hcovered
  obtain ⟨-, b, hb, hbkey, -⟩ := h.entries e he
  obtain rfl : a = b := Option.some.inj (ha.symm.trans hb)
  have hfound : s.roster.get? e.1 = some e.2 := lookup_of_mem h.nodup he
  rw [← hbkey, hkey, habsent] at hfound
  cases hfound

/-- The watchers of that key among the first so many children have ended, by themselves or because
they were stopped for good: however the calls go on, none of them is polled any more. -/
def HasCleared (mine : String → Prop) (s : Session) (key : AddonKey) (count : Nat) : Prop :=
  ∀ i a, i < count → s.site.assignment? i = some a → a.key = key → ∀ last, s.Later mine last →
    last.site.isFinished i = true ∧ last.site.stepChild i = none

theorem Orderly.hasCleared_of_turns (h : s.Orderly mine) (hf : s.forsaken = false)
    (ht : s.Turns mine next) {k : Nat} {b : Assignment} (hk : s.site.children.length ≤ k)
    (hb : next.site.assignment? k = some b) (hm : mine b.key.text) :
    next.HasCleared mine b.key k := by
  have hlt := Site.lt_length_of_assignment? hb
  cases ht with
  | polls text work site roster result hc hstep =>
    have hmoves := Reconciling.step_moves hstep
    obtain ⟨key, attempt, rfl, rfl, rfl⟩ := hmoves.starts hk hb
    intro i a hi ha hkey last hl
    have hclear := h.clear hf hc
    have hold := (hmoves.grows.assignment i hi).symm.trans ha
    exact (hkey ▸ hclear).later (hmoves.grows.trans hl.grows) hold
  | others site ha => exact absurd hm (ha.newcomers k b hk hb)
  | _ => exact absurd hlt (Nat.not_lt.mpr hk)

end Session

theorem Desk.asks_of_step {desk desk' : Desk} {isSealed : Bool} {site next : Site}
    {marks : List Mark} {target : Target} {time : Nat}
    (h : desk.step isSealed site = some (next, desk')) (ht : next.trace = marks ++ site.trace)
    (hm : .opened target time ∈ marks) :
    ∃ text key attempt rest, desk'.phase = .reconciling text (.opening key attempt) rest ∧
      attempt.assignment.target = target := by
  rcases (step_leaves h).of_mem ht hm with ⟨_, _, hlogged⟩ | ⟨text, work, rest, hphase, -⟩
  · cases hlogged
  · simp only [step, hphase] at h
    split at h
    next =>
      cases h
      exact absurd hm (Reconciling.not_asked [] ht rfl rfl)
    next =>
      obtain ⟨⟨after, roster, result⟩, hstep, h⟩ := Option.map_eq_some_iff.mp h
      cases result with
      | inl work' =>
        cases h
        obtain ⟨key, attempt, he, htarget⟩ := Reconciling.asks_of_step hstep ht hm
        cases he
        exact ⟨text, key, attempt, rest, rfl, htarget⟩
      | inr verdict =>
        have hc := conclude_concludes { desk with roster := roster, phase := .working rest } text
          after verdict
        dsimp only at h
        rw [h] at hc
        obtain ⟨first, hfirst, -⟩ := Reconciling.step_leaves hstep
        have hlogs : after.Leaves (fun _ => False) next := hc.leaves
        obtain ⟨second, hsecond, hremarks⟩ := hlogs
        obtain rfl : marks = second ++ first := by
          refine List.append_cancel_right (ht.symm.trans ?_)
          rw [hsecond, hfirst, List.append_assoc]
        rcases List.mem_append.mp hm with hm | hm
        · exact absurd hm (Site.Leaves.not_asked ⟨second, hsecond, hremarks⟩ hsecond)
        · obtain ⟨_, _, he, -⟩ := Reconciling.asks_of_step hstep hfirst hm
          cases he

namespace Supervision

variable {w : Surroundings} {s next last : Supervision} {text : String} {key : AddonKey}
  {attempt : Opening} {rest : List String}

theorem Reached.later_grows (h : s.Reached w) (hl : s.Later w last) :
    s.site.Grows last.site := by
  induction hl with
  | refl => exact (Site.Ages.refl s.site).grows
  | next mid last hl hm ih => exact ih.trans ((h.later hl).orderly.grows hm)

/-- A desk that waits for the object of a new watcher has seen all former watchers of the key
end. -/
theorem Reached.clear (h : s.Reached w) {desk : Desk} (hd : desk ∈ s.desks)
    (hphase : desk.phase = .reconciling text (.opening key attempt) rest) :
    s.site.IsClear attempt.assignment.key := by
  obtain ⟨j, hj⟩ := List.mem_iff_getElem?.mp hd
  exact ((h.attends hj).kept hphase).orderly.clear rfl rfl

/-- A watcher is started by a desk that has waited for its object, and there is only one. -/
theorem Reached.starts (h : s.Reached w) (hm : s.Moves w next) {k : Nat} {b : Assignment}
    (hk : s.site.children.length ≤ k) (hb : next.site.assignment? k = some b) :
    k = s.site.children.length ∧ ∃ desk ∈ s.desks, ∃ text key attempt rest,
      desk.phase = .reconciling text (.opening key attempt) rest ∧ attempt.assignment = b := by
  have hlt := Site.lt_length_of_assignment? hb
  cases hm with
  | task t _ hstep =>
    have hspawner := h.spawner hstep hk hb
    subst hspawner
    obtain ⟨desk, desk', site, hd, hmoves, rfl⟩ := stepDesk_cases hstep
    rcases hmoves.effect with hw | ⟨text, work, rest, roster, mid, result, hphase, hwork, hw⟩
    · have hlen := hw.ages.length
      exact absurd hlt (by dsimp only; omega)
    · have hmid := (hw.ages.assignment k).symm.trans hb
      obtain ⟨key, attempt, rfl, he, hfirst⟩ := hwork.starts hk hmid
      exact ⟨hfirst, desk, List.mem_of_getElem? hd, text, key, attempt, rest, hphase, he⟩
  | _ => exact absurd hlt (Nat.not_lt.mpr hk)

/-- Whenever an object is asked for, a desk waits for it to start a watcher on it. -/
theorem Reached.asks (h : s.Reached w) (hm : s.Moves w next) {marks : List Mark}
    {target : Target} {time : Nat} (ht : next.site.trace = marks ++ s.site.trace)
    (hasked : .opened target time ∈ marks) :
    ∃ desk ∈ next.desks, ∃ text key attempt rest,
      desk.phase = .reconciling text (.opening key attempt) rest ∧
        attempt.assignment.target = target := by
  cases hm with
  | task t _ hstep =>
    rcases (h.makes hstep).of_mem ht hasked with ⟨_, _, hlogged⟩ | ⟨key, hmakes⟩
    · cases hlogged
    · cases hmakes with
      | opens i desk =>
        obtain ⟨old, desk', site, hd, hdesk, rfl⟩ := step_of_stepDesk hstep
        obtain ⟨text, key, attempt, rest, hphase, htarget⟩ := Desk.asks_of_step hdesk ht hasked
        have hlt := (List.getElem?_eq_some_iff.mp hd).1
        exact ⟨desk', List.mem_set hlt desk', text, key, attempt, rest, hphase, htarget⟩
  | _ => exact absurd hasked (Reconciling.not_asked [] ht rfl rfl)

/-- The watchers of that key among the first so many children have ended, by themselves or because
they were stopped for good: however the run goes on, none of them is polled any more. -/
def HasCleared (w : Surroundings) (s : Supervision) (key : AddonKey) (count : Nat) : Prop :=
  ∀ i a, i < count → s.site.assignment? i = some a → a.key = key → ∀ last, s.Later w last →
    last.site.isFinished i = true ∧ last.step (.child i) = none

theorem Reached.hasCleared (h : s.Reached w) {desk : Desk} (hd : desk ∈ s.desks)
    (hphase : desk.phase = .reconciling text (.opening key attempt) rest) :
    s.HasCleared w attempt.assignment.key s.site.children.length := by
  intro i a _ ha hkey last hl
  obtain ⟨hdone, hnone⟩ := (hkey ▸ h.clear hd hphase).later (h.later_grows hl) ha
  exact ⟨hdone, by simp [step, stepChild, hnone]⟩

theorem Reached.hasCleared_of_moves (h : s.Reached w) (hm : s.Moves w next) {k : Nat}
    {b : Assignment} (hk : s.site.children.length ≤ k) (hb : next.site.assignment? k = some b) :
    next.HasCleared w b.key k := by
  obtain ⟨rfl, desk, hd, text, key, attempt, rest, hphase, rfl⟩ := h.starts hm hk hb
  intro i a hi ha hkey last hl
  have hgrows := h.orderly.grows hm
  have hold := (hgrows.assignment i hi).symm.trans ha
  obtain ⟨hdone, hnone⟩ := (hkey ▸ h.clear hd hphase).later
    (hgrows.trans ((h.next _ _ hm).later_grows hl)) hold
  exact ⟨hdone, by simp [step, stepChild, hnone]⟩

/-- In calls of which none was dropped, and in every supervision: an object is asked for by a call
that then waits for it; in all that time every watcher ever started for the key is gone, and when
the new one is started all earlier ones of its key are gone. -/
theorem predecessors_gone :
    (∀ (mine : String → Prop) (c : Session), c.Reached mine → c.forsaken = false →
      (∀ text work site roster result marks target time, c.call = some (text, work) →
        work.step c.roster c.site = some (site, roster, result) →
        site.trace = marks ++ c.site.trace → .opened target time ∈ marks →
          ∃ key attempt, result = .inl (.opening key attempt) ∧
            attempt.assignment.target = target) ∧
      (∀ text key attempt, c.call = some (text, .opening key attempt) →
        c.HasCleared mine attempt.assignment.key c.site.children.length) ∧
      ∀ next k b, c.Turns mine next → c.site.children.length ≤ k →
        next.site.assignment? k = some b → mine b.key.text → next.HasCleared mine b.key k) ∧
    ∀ (w : Surroundings) (s : Supervision), s.Reached w →
      (∀ desk ∈ s.desks, ∀ text key attempt rest,
        desk.phase = .reconciling text (.opening key attempt) rest →
          s.HasCleared w attempt.assignment.key s.site.children.length) ∧
      ∀ next, s.Moves w next →
        (∀ marks target time, next.site.trace = marks ++ s.site.trace →
          .opened target time ∈ marks → ∃ desk ∈ next.desks, ∃ text key attempt rest,
            desk.phase = .reconciling text (.opening key attempt) rest ∧
              attempt.assignment.target = target) ∧
        ∀ k b, s.site.children.length ≤ k → next.site.assignment? k = some b →
          next.HasCleared w b.key k := by
  refine ⟨fun mine c hc hf => ⟨?_, fun text key attempt hcall => ?_,
      fun next k b ht hk hb hm => ?_⟩,
    fun w s hs => ⟨fun desk hd text key attempt rest hphase => hs.hasCleared hd hphase,
      fun next hm => ⟨fun marks target time => hs.asks hm,
        fun k b hk hb => hs.hasCleared_of_moves hm hk hb⟩⟩⟩
  · exact fun _ _ _ _ _ _ _ _ _ hstep => Reconciling.asks_of_step hstep
  · intro i a _ ha hkey last hl
    exact (hkey ▸ hc.orderly.clear hf hcall).later hl.grows ha
  · exact hc.orderly.hasCleared_of_turns hf ht hk hb hm

/-- One addon, and every object that is asked for is granted. -/
def obliging : Supervision where
  site := { settings := { workers := 1 }, hub := { addons := [specimen "a" "x"] } }
  names := ["a"]
  lead := .fresh

/-- The addon of the watcher has been pointed at another object, and that is told. -/
def repointed (s : Supervision) : Supervision :=
  let hub := s.site.hub.storeAddon (specimen "a" "y")
  { s with site := { s.site with
      hub := hub.announceAddon (specimen "a" "y").objectName true } }

/-- The desk is about to start the second watcher, as far as it can be computed. -/
def isSucceeding (s : Supervision) : Bool :=
  s.site.children.length = 1 && s.site.assignment? 0 = some firstAssignment &&
    (s.step (.desk 0)).any fun next => (next.site.assignment? 1).any fun b =>
      b.key = firstAssignment.key && b.fingerprint ≠ firstAssignment.fingerprint

/-- The addon of a live watcher is pointed at another object: the watcher is gone when that object
has been asked for, and when the one on that object is started. -/
theorem predecessors_gone_first : ∃ (s next : Supervision) (b : Assignment),
    s.Reached .any ∧ s.Moves .any next ∧ next.site.assignment? 0 = some firstAssignment ∧
      next.site.assignment? 1 = some b ∧ b.key = firstAssignment.key ∧
      b.fingerprint ≠ firstAssignment.fingerprint ∧ next.HasCleared .any b.key 1 ∧
      ∃ (mine : String → Prop) (c : Session) (text : String) (key : AddonKey) (attempt : Opening),
        c.Reached mine ∧ c.forsaken = false ∧ c.call = some (text, .opening key attempt) ∧
        attempt.assignment = b ∧ c.site = s.site ∧
        c.HasCleared mine attempt.assignment.key c.site.children.length := by
  have hstart : obliging.Reached .any := .start _ ⟨rfl, rfl, rfl, rfl, rfl, rfl⟩ trivial
  obtain ⟨mid, hmid, hp⟩ := exists_of_play (List.replicate 3 .lead ++ List.replicate 4 (.desk 0))
    hstart
    (p := fun mid => (mid.repointed.play ([.desk 0, .lead] ++ List.replicate 3 (.desk 0) ++
      [.child 0, .desk 0])).any isSucceeding)
    (by decide +kernel)
  obtain ⟨s, hplay, hp⟩ := (Option.any_eq_true ..).mp hp
  simp only [isSucceeding, Bool.and_eq_true, Option.any_eq_true, decide_eq_true_eq] at hp
  obtain ⟨⟨hone, hformer⟩, next, hstep, b, hb, hkey, hother⟩ := hp
  have hs : s.Reached .any := (hmid.next _ _ (.hub _ trivial)).play hplay
  have hm : s.Moves .any next := .task _ _ hstep
  have hkept : next.site.assignment? 0 = some firstAssignment :=
    ((hs.orderly.grows hm).assignment 0 (by rw [hone]; decide)).trans hformer
  have hcleared := ((predecessors_gone.2 .any s hs).2 next hm).2 1 b (Nat.le_of_eq hone) hb
  obtain ⟨-, desk, hd, text, key, attempt, rest, hphase, he⟩ :=
    hs.starts hm (Nat.le_of_eq hone) hb
  obtain ⟨j, hj⟩ := List.mem_iff_getElem?.mp hd
  have hcalls := (hs.attends hj).kept hphase
  have hasking := (predecessors_gone.1 _ _ hcalls rfl).2.1 text key attempt rfl
  exact ⟨s, next, b, hs, hm, hkept, hb, hkey, hother, hcleared, _, _, text, key, attempt, hcalls,
    rfl, rfl, he, rfl, hasking⟩

end Supervision

end AddonWatch

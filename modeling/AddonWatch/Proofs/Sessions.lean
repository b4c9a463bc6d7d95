import AddonWatch.Proofs.Undisturbed

namespace AddonWatch

/-- What others may do to the site of a registry that is for the keys of those texts: children go on
or end, there may be more of them, and all else may change, but no child is started for such a key
and nothing is told of one. -/
structure Site.Apart (mine : String → Prop) (old new : Site) : Prop where
  grows : old.Grows new
  newcomers : ∀ i a, old.children.length ≤ i → new.assignment? i = some a → ¬mine a.key.text
  notices : ∀ key : AddonKey, mine key.text → new.notices key = old.notices key

namespace Site.Apart

variable {mine : String → Prop} {old mid new : Site}

theorem of_grows (h : old.Grows new) (hlen : new.children.length = old.children.length)
    (hn : ∀ key, new.notices key = old.notices key) : old.Apart mine new where
  grows := h
  newcomers i a hi ha := by
    have hlt := lt_length_of_assignment? ha
    omega
  notices key _ := hn key

/-- To let go of children with remarks and no more concerns no registry. -/
theorem of_windsDown (h : old.WindsDown new) (hl : old.Leaves (fun _ => False) new) :
    old.Apart mine new :=
  .of_grows h.ages.grows h.ages.length fun _ => notices_of_leaves hl fun _ _ _ => id

end Site.Apart

/-- Calls of a reconciliation for one registry, one after the other: what they share with others,
the registry, the call under way with the text it is for, and whether one of them has been dropped
or the registry given up. -/
structure Session where
  site : Site
  roster : Roster := {}
  call : Option (String × Reconciling) := none
  forsaken : Bool := false

namespace Session

/-- The call for that text goes on, or it has ended. -/
def under (text : String) : Reconciling ⊕ Verdict → Option (String × Reconciling)
  | .inl work => some (text, work)
  | .inr _ => none

/-- The child that the call under way has cancelled and waits for. -/
def awaited (s : Session) : List Nat :=
  match s.call with
  | some (_, work) => work.awaited
  | none => []

theorem awaited_under (site : Site) (roster : Roster) (text : String)
    (result : Reconciling ⊕ Verdict) (forsaken : Bool) :
    awaited ⟨site, roster, under text result, forsaken⟩ = Reconciling.stillAwaited result := by
  cases result <;> rfl

/-- What can happen next: a call for one of those texts begins or is polled, others change the site,
a call is dropped, or the registry is given up. -/
inductive Turns (mine : String → Prop) (s : Session) : Session → Prop
  | calls (text : String) (hm : mine text) (hn : s.call = none) :
      Turns mine s { s with call := some (text, .fresh text) }
  | polls (text : String) (work : Reconciling) (site : Site) (roster : Roster)
      (result : Reconciling ⊕ Verdict) (hc : s.call = some (text, work))
      (hstep : work.step s.roster s.site = some (site, roster, result)) :
      Turns mine s { s with site := site, roster := roster, call := under text result }
  | others (site : Site) (ha : s.site.Apart mine site) : Turns mine s { s with site := site }
  | drops (text : String) (work : Reconciling) (hc : s.call = some (text, work)) :
      Turns mine s { s with call := none, forsaken := true }
  | givesUp : Turns mine s { s with roster := {}, call := none, forsaken := true }

/-- The states that such calls come to, from an empty registry on a site where nothing has been done
for the keys of those texts. -/
inductive Reached (mine : String → Prop) : Session → Prop
  | start (site : Site) (hchildren : ∀ i a, site.assignment? i = some a → ¬mine a.key.text)
      (hnotices : ∀ key : AddonKey, mine key.text → site.notices key = []) :
      Reached mine { site := site }
  | next (s s' : Session) (h : Reached mine s) (ht : s.Turns mine s') : Reached mine s'

/-- The states that they come to from there on. -/
inductive Later (mine : String → Prop) (s : Session) : Session → Prop
  | refl : Later mine s s
  | next (mid s' : Session) (h : Later mine s mid) (ht : mid.Turns mine s') : Later mine s s'

/-- The registry holds watchers for those keys alone, the call under way is for one of them, and
unless a call was dropped or the registry given up, a watcher of such a key that runs on is
registered or waited for. -/
structure Orderly (mine : String → Prop) (s : Session) : Prop where
  nodup : s.roster.keys.Nodup
  entries : ∀ e ∈ s.roster.entries, mine e.1.text ∧ e.2.IsFor s.site e.1
  work : ∀ text work, s.call = some (text, work) → mine text ∧ work.Fits s.site s.roster text
  covers : s.forsaken = false → ∀ i a, s.site.assignment? i = some a → mine a.key.text →
    s.site.isFinished i = false → i ∈ s.roster.children ++ s.awaited

variable {mine : String → Prop} {s next last : Session}

theorem Turns.grows (h : s.Turns mine next) : s.site.Grows next.site := by
  cases h with
  | polls text work site roster result hc hstep => exact (Reconciling.step_moves hstep).grows
  | others site ha => exact ha.grows
  | _ => exact (Site.Ages.refl s.site).grows

theorem Later.grows (h : s.Later mine last) : s.site.Grows last.site := by
  induction h with
  | refl => exact (Site.Ages.refl s.site).grows
  | next mid last _ ht ih => exact ih.trans ht.grows

namespace Orderly

theorem others {site : Site} (h : s.Orderly mine) (ha : s.site.Apart mine site) :
    Orderly mine { s with site := site } where
  nodup := h.nodup
  entries e he := ⟨(h.entries e he).1, (h.entries e he).2.grows ha.grows⟩
  work text work hc := ⟨(h.work text work hc).1, (h.work text work hc).2.grows ha.grows⟩
  covers hf i a hassign hm hrun := by
    rcases Nat.lt_or_ge i s.site.children.length with hi | hi
    · exact h.covers hf i a ((ha.grows.assignment i hi).symm.trans hassign) hm
        (ha.grows.running i hi hrun)
    · exact absurd hm (ha.newcomers i a hi hassign)

theorem polls {text : String} {work : Reconciling} {site : Site} {roster : Roster}
    {result : Reconciling ⊕ Verdict} (h : s.Orderly mine) (hc : s.call = some (text, work))
    (hstep : work.step s.roster s.site = some (site, roster, result)) :
    Orderly mine { s with site := site, roster := roster, call := under text result } := by
  obtain ⟨hmine, hfit⟩ := h.work text work hc
  have hentries : ∀ e ∈ s.roster.entries, e.2.IsFor s.site e.1 := fun e he => (h.entries e he).2
  have hmoves := Reconciling.step_moves hstep
  refine ⟨hmoves.nodup h.nodup, fun e he => ?_, fun text' work' hcall => ?_,
    fun hf i a ha hm hrun => ?_⟩
  · obtain ⟨hfor, hold | hkey⟩ := hmoves.entries hfit hentries e he
    · exact ⟨(h.entries e hold).1, hfor⟩
    · exact ⟨hkey ▸ hmine, hfor⟩
  · cases result with
    | inl work =>
      cases hcall
      exact ⟨hmine, hmoves.fits hfit hentries⟩
    | inr verdict => cases hcall
  · rw [awaited_under]
    rcases Nat.lt_or_ge i s.site.children.length with hi | hi
    · have hg := hmoves.grows
      have hcovered := h.covers hf i a ((hg.assignment i hi).symm.trans ha) hm
        (hg.running i hi hrun)
      simp only [awaited, hc] at hcovered
      exact hmoves.charges hfit h.nodup hcovered hrun
    · exact List.mem_append_left _ (hmoves.newcomer hfit hi ha).1

theorem turns (h : s.Orderly mine) (ht : s.Turns mine next) : next.Orderly mine := by
  cases ht with
  | calls text hm hn =>
    refine ⟨h.nodup, h.entries, fun text' work hc => ?_, fun hf i a ha hmine hrun => ?_⟩
    · cases hc
      exact ⟨hm, rfl⟩
    · have hcovered := h.covers hf i a ha hmine hrun
      simpa [awaited, hn, Reconciling.awaited] using hcovered
  | polls text work site roster result hc hstep => exact h.polls hc hstep
  | others site ha => exact h.others ha
  | drops text work hc => exact ⟨h.nodup, h.entries, by simp, by simp⟩
  | givesUp => exact ⟨List.nodup_nil, by simp, by simp, by simp⟩

end Orderly

theorem Reached.orderly (h : s.Reached mine) : s.Orderly mine := by
  induction h with
  | start site hchildren hnotices =>
    exact ⟨List.nodup_nil, by simp, by simp, fun _ i a ha hm => absurd hm (hchildren i a ha)⟩
  | next s s' _ ht ih => exact ih.turns ht

end Session

namespace Supervision

variable {w : Surroundings} {s next : Supervision} {t : Task} {i j : Nat} {a : Assignment}

/-- Only the desk of a key starts watchers for it. -/
theorem Reached.spawner (h : s.Reached w) (hstep : s.step t = some next)
    (hi : s.site.children.length ≤ i) (ha : next.site.assignment? i = some a) :
    t = .desk (s.partition a.key.text) := by
  have hlt := Site.lt_length_of_assignment? ha
  cases t with
  | child j =>
    obtain ⟨site, child, f, rfl, hc, hb, -, hmoves⟩ := stepChild_moves hstep h.orderly.staffed
    have hlen := (hmoves.ages hc hb).length
    exact absurd hlt (by dsimp only; omega)
  | desk j =>
    obtain ⟨desk, desk', site, hd, hmoves, rfl⟩ := stepDesk_cases hstep
    rw [(hmoves.newcomer (h.orderly.desks j desk hd) hi ha).2]
  | lead =>
    obtain ⟨hub, trace, exits, he, -⟩ := (stepLead_moves hstep).shared
    rw [he] at hlt
    exact absurd hlt (Nat.not_lt.mpr hi)

/-- A task other than a desk keeps off the keys of that desk. -/
theorem Reached.apart (h : s.Reached w) (hstep : s.step t = some next) (ht : t ≠ .desk j) :
    s.site.Apart (fun text => s.partition text = j) next.site where
  grows := h.orderly.grows (w := w) (.task t next hstep)
  newcomers i a hi ha hp := ht (hp ▸ h.spawner hstep hi ha)
  notices key hp := by
    refine Site.notices_of_leaves (h.makes hstep) ?_
    rintro notice note time ⟨other, hmakes⟩
    cases hmakes with
    | tells i desk _ _ _ hd hat =>
      exact ht (by rw [← hp, h.orderly.partition_of_isAt hd hat])

/-- Before there are desks no watcher is started and nothing is told. -/
theorem Reached.untold (h : s.Reached w) (hnone : s.desks = []) :
    s.site.children = [] ∧ ∀ key, s.site.notices key = [] := by
  induction h with
  | start s hf => exact ⟨hf.children, fun key => by simp [Site.notices, hf.trace]⟩
  | next s s' hr hm ih =>
    cases hm with
    | task t _ hstep =>
      cases t with
      | child i =>
        obtain ⟨site, child, f, rfl, hc, -⟩ := stepChild_moves hstep hr.orderly.staffed
        simp [(ih hnone).1] at hc
      | desk i =>
        obtain ⟨desk, desk', site, hd, -, rfl⟩ := stepDesk_cases hstep
        have hset : s.desks = [] := by simpa using hnone
        simp [hset] at hd
      | lead =>
        have hmoves := stepLead_moves hstep
        have hleaves : s.site.Leaves (fun _ => False) s'.site := hmoves.leaves
        obtain ⟨hchildren, htold⟩ : s.site.children = [] ∧ ∀ key, s.site.notices key = [] := by
          rcases hmoves.desks with ⟨call, deadline, -, rfl⟩ | ⟨more, hs⟩
          · obtain ⟨hub, trace, lead, he, -⟩ := Orderly.begin_eq s
            simp [he, count] at hnone
          · exact ih (List.eq_nil_of_length_eq_zero (by rw [← hs.length, hnone]; rfl))
        obtain ⟨hub, trace, exits, he, -⟩ := hmoves.shared
        refine ⟨by rw [he]; exact hchildren, fun key => ?_⟩
        exact (Site.notices_of_leaves hleaves fun _ _ _ => id).trans (htold key)
    | _ => exact ih hnone

end Supervision

/-- What the desk has done so far are calls for its registry. Once one of them is dropped, because
the scope has been cancelled, or the registry is given up, because the desk is out of work, there
are no more of them. -/
def Desk.Attends (desk : Desk) (site : Site) (mine : String → Prop) : Prop :=
  ∃ forsaken, Session.Reached mine ⟨site, desk.roster, desk.phase.call?, forsaken⟩ ∧
    (forsaken = true → desk.phase.call? = none ∧
      (site.halted = true ∨ desk.phase.isAtWork = false))

namespace Desk.Attends

variable {desk desk' : Desk} {isSealed : Bool} {site site' : Site} {mine : String → Prop}

theorem others (h : desk.Attends site mine) (ha : site.Apart mine site')
    (hh : site.halted = true → site'.halted = true) : desk.Attends site' mine := by
  obtain ⟨forsaken, hs, hf⟩ := h
  exact ⟨forsaken, .next _ _ hs (.others site' ha), fun he => ⟨(hf he).1, (hf he).2.imp_left hh⟩⟩

theorem windsDown (h : desk.Attends site mine) (hw : site.WindsDown site')
    (hl : site.Leaves (fun _ => False) site') : desk.Attends site' mine :=
  h.others (.of_windsDown hw hl) fun hh => hw.ages.halted.trans hh

/-- A desk may turn to something else between two calls. -/
theorem turnsTo (h : desk.Attends site mine) (hroster : desk'.roster = desk.roster)
    (hcall : desk'.phase.call? = desk.phase.call?)
    (hwork : desk.phase.isAtWork = false → desk'.phase.isAtWork = false) :
    desk'.Attends site mine := by
  obtain ⟨forsaken, hs, hf⟩ := h
  exact ⟨forsaken, hroster ▸ hcall ▸ hs, fun he =>
    ⟨hcall.trans (hf he).1, (hf he).2.imp_right hwork⟩⟩

/-- A desk that is out of work has given its registry up. -/
theorem givesUp (h : desk.Attends site mine) (hroster : desk'.roster = {})
    (hcall : desk'.phase.call? = none) (hwork : desk'.phase.isAtWork = false) :
    desk'.Attends site mine := by
  obtain ⟨forsaken, hs, -⟩ := h
  exact ⟨true, hroster ▸ hcall ▸ .next _ _ hs .givesUp, fun _ => ⟨hcall, .inr hwork⟩⟩

/-- How a desk takes the outcome of a call is no call. -/
theorem concludes {text : String} {verdict : Verdict} (h : desk.Attends site mine)
    (hc : desk.Concludes text site verdict site' desk') : desk'.Attends site' mine := by
  have hafter := h.windsDown hc.windsDown hc.leaves
  cases hc with
  | forgets _ _ _ _ _ _ _ _ hf =>
    obtain ⟨alarms, rfl, -⟩ := forget_eq hf
    exact hafter.turnsTo rfl rfl id
  | retries _ _ _ hr =>
    obtain ⟨id, alarms, rfl, -⟩ := retryLater_eq hr
    exact hafter.turnsTo rfl rfl fun hwork => hwork
  | _ => exact hafter.givesUp rfl rfl rfl

/-- A desk that is at a call has dropped none. -/
theorem kept {text : String} {work : Reconciling} {rest : List String}
    (h : desk.Attends site mine) (hphase : desk.phase = .reconciling text work rest) :
    Session.Reached mine ⟨site, desk.roster, some (text, work), false⟩ := by
  obtain ⟨forsaken, hs, hf⟩ := h
  cases forsaken with
  | false =>
    rw [hphase] at hs
    exact hs
  | true =>
    have hnone := (hf rfl).1
    rw [hphase] at hnone
    cases hnone

theorem polls {text : String} {work : Reconciling} {rest : List String} {roster : Roster}
    {result : Reconciling ⊕ Verdict} (h : desk.Attends site mine)
    (hphase : desk.phase = .reconciling text work rest)
    (hstep : work.step desk.roster site = some (site', roster, result))
    (hroster : desk'.roster = roster) (hcall : desk'.phase.call? = Session.under text result) :
    desk'.Attends site' mine := by
  refine ⟨false, ?_, by simp⟩
  rw [hroster, hcall]
  exact .next _ _ (h.kept hphase) (.polls text work site' roster result rfl hstep)

theorem reconciles {text : String} {work : Reconciling} {rest : List String}
    (h : desk.Attends site mine) (hphase : desk.phase = .reconciling text work rest)
    (hstep : desk.step isSealed site = some (site', desk')) : desk'.Attends site' mine := by
  simp only [step, hphase] at hstep
  split at hstep
  next hh =>
    cases hstep
    exact ⟨true, .next _ _ (h.kept hphase) (.drops text work rfl), fun _ => ⟨rfl, .inl hh⟩⟩
  next =>
    obtain ⟨⟨after, roster, result⟩, hwork, hstep⟩ := Option.map_eq_some_iff.mp hstep
    cases result with
    | inl work' =>
      cases hstep
      exact h.polls hphase hwork rfl rfl
    | inr verdict =>
      have hends : ({ desk with roster := roster, phase := .working rest } : Desk).Attends after
          mine := h.polls hphase hwork rfl rfl
      have hc := conclude_concludes { desk with roster := roster, phase := .working rest } text
        after verdict
      dsimp only at hstep
      rw [hstep] at hc
      exact hends.concludes hc

theorem step (h : desk.Attends site mine) (hmine : ∀ text ∈ desk.phase.texts, mine text)
    (hstep : desk.step isSealed site = some (site', desk')) : desk'.Attends site' mine := by
  have hidle : ∀ {phase : DeskPhase}, desk.phase = phase → phase.isAtWork = true →
      desk.phase.isAtWork = false → desk'.phase.isAtWork = false := by
    rintro _ rfl hwork hnone
    rw [hwork] at hnone
    cases hnone
  cases step_moves hstep with
  | closes alarms hphase =>
    have hafter := h.windsDown
      (Closing.start_windsDown desk.roster site.settings.cancelGrace site)
      (Closing.start_leaves _ _ _)
    exact hafter.givesUp rfl rfl rfl
  | wakes alarm alarms hphase => exact h.turnsTo rfl (by rw [hphase]; rfl) (hidle hphase rfl)
  | takes key rest alarms hphase => exact h.turnsTo rfl (by rw [hphase]; rfl) (hidle hphase rfl)
  | looks rest alarms hphase => exact h.turnsTo rfl (by rw [hphase]; rfl) (hidle hphase rfl)
  | turns alarms hphase => exact h.turnsTo rfl rfl (hidle hphase rfl)
  | rests hphase => exact h.turnsTo rfl (by rw [hphase]; rfl) (hidle hphase rfl)
  | begins key rest hphase hh =>
    obtain ⟨forsaken, hs, hf⟩ := h
    have hm : mine key := hmine key (by simp [hphase, DeskPhase.texts])
    refine ⟨forsaken, .next _ _ hs (.calls key hm (by rw [hphase]; rfl)), fun he => ?_⟩
    have hlost := (hf he).2
    simp [hh, hphase, DeskPhase.isAtWork] at hlost
  | drops hh hphase =>
    rcases hphase with ⟨keys, hphase⟩ | ⟨key, work, rest, hphase⟩
    · exact h.turnsTo rfl (by rw [hphase]; rfl) (hidle hphase rfl)
    · exact h.reconciles hphase hstep
  | goesOn key work work' rest next roster hphase => exact h.reconciles hphase hstep
  | concludes key work rest next after roster verdict desk' hphase =>
    exact h.reconciles hphase hstep
  | settles closing closing' next hphase hc =>
    have hafter := h.windsDown (Closing.step_windsDown hc) (Closing.step_leaves hc)
    exact hafter.turnsTo rfl (by rw [hphase]; rfl) fun _ => rfl
  | finishes closing next hphase hc =>
    have hafter := h.windsDown (Closing.step_windsDown hc) (Closing.step_leaves hc)
    exact hafter.turnsTo rfl (by rw [hphase]; rfl) fun _ => rfl

end Desk.Attends

namespace Supervision

variable {w : Surroundings} {s next : Supervision} {j : Nat} {desk : Desk}

/-- With the addon stream open, every desk begins with an empty registry, on a site where nothing
has been done. -/
theorem Reached.attends_begin (h : s.Reached w) (hu : s.IsUnopened)
    (hmoves : s.LeadMoves s.begin) (hd : s.begin.desks[j]? = some desk) :
    desk.Attends s.begin.site fun text => s.begin.partition text = j := by
  obtain ⟨hchildren, htold⟩ := h.untold (h.orderly.unopened hu).1
  have hleaves : s.site.Leaves (fun _ => False) s.begin.site := hmoves.leaves
  have hnotices : ∀ key, s.begin.site.notices key = [] := fun key =>
    (Site.notices_of_leaves hleaves fun _ _ _ => id).trans (htold key)
  obtain ⟨hub, trace, lead, he, -⟩ := Orderly.begin_eq s
  have hnone : ∀ i a, s.begin.site.assignment? i ≠ some a := by
    intro i a ha
    have hlt := Site.lt_length_of_assignment? ha
    simp [he, hchildren] at hlt
  have hfresh : desk.roster = {} ∧ desk.phase = .idle := by
    rw [he] at hd
    obtain rfl := List.eq_of_mem_replicate (List.mem_of_getElem? hd)
    exact ⟨rfl, rfl⟩
  refine ⟨false, ?_, by simp⟩
  rw [hfresh.1, hfresh.2]
  exact .start _ (fun i a ha => absurd ha (hnone i a)) fun key _ => hnotices key

/-- All that a desk of a supervision does are calls for its registry, for keys that no other desk
touches. -/
theorem Reached.attends (h : s.Reached w) (hd : s.desks[j]? = some desk) :
    desk.Attends s.site fun text => s.partition text = j := by
  induction h generalizing j desk with
  | start s hf => simp [hf.desks] at hd
  | next s s' hr hm ih =>
    cases hm with
    | task t _ hstep =>
      cases t with
      | child i =>
        have hapart := hr.apart (j := j) hstep (by simp)
        have honward := hr.onward (.task _ _ hstep)
        obtain ⟨site, -, rfl⟩ := stepChild_cases hstep
        exact (ih hd).others hapart honward.halted
      | desk i =>
        have hmoved := hstep
        obtain ⟨old, new, site, hold, hdesk, rfl⟩ := step_of_stepDesk hstep
        simp only [partition_set_desk]
        rcases getElem?_set_desk hold hd with ⟨rfl, rfl⟩ | ⟨hne, hd⟩
        · exact (ih hold).step (hr.orderly.desks _ old hold).texts hdesk
        · exact (ih hd).others (hr.apart hmoved (by simpa using Ne.symm hne))
            (hr.onward (.task _ _ hmoved)).halted
      | lead =>
        have hmoves := stepLead_moves hstep
        rcases hmoves.desks with ⟨call, deadline, hlead, rfl⟩ | ⟨more, hs⟩
        · exact hr.attends_begin (.inr ⟨call, deadline, hlead⟩) hmoves hd
        · have hapart := hr.apart (j := j) hstep (by simp)
          have honward := hr.onward (.task _ _ hstep)
          simp only [hs.partition_eq]
          rw [hs.desks] at hd
          obtain ⟨old, hold, rfl⟩ := Option.map_eq_some_iff.mp hd
          exact ((ih hold).others hapart honward.halted).turnsTo rfl rfl id
    | hub hub ha =>
      have hages := Site.Ages.hub_trace s.site hub s.site.trace s.site.exits
      exact (ih hd).others (.of_grows hages.grows rfl fun _ => rfl) id
    | time moment ht => exact (ih hd).others (.of_grows (.time _ _) rfl fun _ => rfl) id
    | halt => exact (ih hd).others (.of_grows (.halt _) rfl fun _ => rfl) fun _ => rfl

end Supervision

end AddonWatch

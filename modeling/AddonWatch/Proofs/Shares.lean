import AddonWatch.Proofs.Courses

namespace AddonWatch

/-- What concerns one key, the latest first: the object that its registered watcher is on, what its
calls have come to, what they have asked for, what was told of it, and how many watchers its calls
have started. -/
structure Share where
  entry : Option Fingerprint := none
  verdicts : List Verdict := []
  asked : List Target := []
  told : List (Notice × String) := []
  builds : Nat := 0

/-- What a key meets with by itself: how long the answer to a request may take, what each call of
the key finds stored, how the hub deals with each of its requests for an object, and before which
call each of its watchers has ended by itself. -/
structure Habits where
  timeout : Span
  shows : AddonKey → Nat → Option Addon
  deals : AddonKey → Target → Nat → Act
  ends : AddonKey → Nat → Option Nat
  named : ∀ key call addon, shows key call = some addon → addon.objectName = key.objectName

/-- A call that has ended, with what it has asked for, told and started itself. -/
structure Served where
  text : String
  verdict : Verdict
  asked : List Target
  notes : List (Notice × AddonKey × String)
  tasks : Nat

/-- What the call has told of that key. -/
def Served.about (c : Served) (key : AddonKey) : List (Notice × String) :=
  c.notes.filterMap fun note => if note.2.1 = key then some (note.1, note.2.2) else none

/-- One registry, and the calls that it has served, the latest first. -/
structure Service where
  site : Site
  roster : Roster := {}
  served : List Served := []

namespace Service

def texts (s : Service) : List String :=
  s.served.map Served.text

/-- What concerns that key, of all that was done. -/
def share (s : Service) (key : AddonKey) : Share where
  entry := (s.roster.get? key).map Handle.fingerprint
  verdicts := (s.served.filter (·.text = key.text)).map Served.verdict
  asked := (s.served.filter (·.text = key.text)).flatMap Served.asked
  told := s.served.flatMap (·.about key)
  builds := ((s.served.filter (·.text = key.text)).map Served.tasks).sum

/-- With that call of a reconciliation the registry has served one more. -/
def after (s : Service) (text : String) (e : Errand) (verdict : Verdict) : Service where
  site := e.site
  roster := e.roster
  served := ⟨text, verdict, e.effects.asked.map Prod.fst, e.notes, e.effects.tasks⟩ :: s.served

end Service

namespace Habits

/-- The watcher of the key that was started last has ended by itself before the next call. -/
def hasEnded (h : Habits) (key : AddonKey) (p : Share) : Bool :=
  (h.ends key p.builds).any (· ≤ p.verdicts.length)

/-- What others do meanwhile lets every registered watcher run that has not come to its end. -/
def Spares (h : Habits) (s : Service) (old new : Site) : Prop :=
  ∀ key handle, s.roster.get? key = some handle → h.hasEnded key (s.share key) = false →
    ∀ a, old.Live handle.child a → new.Live handle.child a

/-- The next call of the key finds stored what it is to find, and its watcher ended if it has come
to its end. -/
structure Greets (h : Habits) (s : Service) (key : AddonKey) : Prop where
  shown : s.site.hub.addon? key.objectName = h.shows key (s.share key).verdicts.length
  ended : ∀ handle, s.roster.get? key = some handle → h.hasEnded key (s.share key) = true →
    handle.isLive s.site = false

/-- The hub has dealt with what a call of the key has asked for, with so many requests before. -/
def Deals (h : Habits) (key : AddonKey) (before : Nat) (asked : List (Target × Act)) : Prop :=
  ∀ later target act earlier, asked = later ++ (target, act) :: earlier →
    act = h.deals key target (before + earlier.length)

end Habits

/-- What a registry comes to that serves one call after the other, with whatever others do between
and during the calls: what they do to the clock, the hub, the children and the marks is up to them,
except that each key meets with its own. -/
inductive Service.Reached (h : Habits) : Service → Prop
  | start (site : Site) (hup : site.halted = false) (ht : site.settings.callTimeout = h.timeout) :
      Reached h { site := site }
  | others (s : Service) (site : Site) (hr : Reached h s) (hu : s.site.Unfolds site)
      (hs : h.Spares s s.site site) : Reached h { s with site := site }
  | calls (s : Service) (text : String) (e : Errand) (verdict : Verdict) (hr : Reached h s)
      (hgreets : ∀ key, AddonKey.parse text = .ok key → h.Greets s key)
      (hcourse : Relation.ReflTransGen (Errand.Polled (h.Spares s))
        (Errand.call text s.roster s.site) e)
      (hend : e.state = .inr verdict)
      (hdeals : ∀ key, AddonKey.parse text = .ok key →
        h.Deals key (s.share key).asked.length e.effects.asked) :
      Reached h (s.after text e verdict)

/-- What is told of a key whose watcher gives way to one on another object. -/
def Share.changes (p : Share) (aim : Fingerprint) : List Notice :=
  match p.entry with
  | none => []
  | some former => if former = aim then [] else [.changed]

/-- The notices in the words for the object that the key is at and the one that it is to be at. -/
def Share.words (p : Share) (aim? : Option Fingerprint) (notices : List Notice) :
    List (Notice × String) :=
  notices.map fun notice => (notice, notice.wording p.entry aim?)

namespace Habits

/-- What a call makes of the share of its key, if the key can be read. -/
def tend (h : Habits) (key : AddonKey) (p : Share) : Share :=
  match (h.shows key p.verdicts.length).bind Addon.desired with
  | none =>
    { p with
      entry := none
      verdicts := .done :: p.verdicts
      told := p.words none (p.entry.map fun _ => .stopped).toList ++ p.told }
  | some reference =>
    if p.entry = some reference.fingerprint ∧ h.hasEnded key p = false then
      { p with verdicts := .done :: p.verdicts }
    else
      let aim := reference.fingerprint
      let reply := (h.deals key reference.target p.asked.length).within h.timeout
      if reply = some .granted then
        { entry := some aim
          verdicts := .done :: p.verdicts
          asked := reference.target :: p.asked
          told := p.words (some aim) (.started :: p.changes aim) ++ p.told
          builds := p.builds + 1 }
      else
        { p with
          entry := none
          verdicts := reference.verdict h.timeout reply :: p.verdicts
          asked := reference.target :: p.asked
          told := p.words (some aim) (p.changes aim) ++ p.told }

/-- What a call makes of the share of its key. -/
def serve (h : Habits) (key : AddonKey) (p : Share) : Share :=
  match AddonKey.parse key.text with
  | .error fault => { p with verdicts := .failed fault :: p.verdicts }
  | .ok _ => h.tend key p

/-- What so many calls make of a key. -/
def replay (h : Habits) (key : AddonKey) : Nat → Share
  | 0 => {}
  | calls + 1 => h.serve key (h.replay key calls)

end Habits

namespace Service

variable {h : Habits} {s : Service} {key other : AddonKey} {text : String} {e : Errand}
  {verdict : Verdict} {former? aim? : Option Fingerprint} {reference : Reference}

/-- What a call adds to the share of its key. -/
theorem share_after_self (hw : e.IsWorded key former? aim?)
    (htold : ∀ t ∈ e.effects.told, t.2 = key) :
    (s.after key.text e verdict).share key =
      ⟨(e.roster.get? key).map Handle.fingerprint, verdict :: (s.share key).verdicts,
        e.effects.asked.map Prod.fst ++ (s.share key).asked,
        (e.effects.told.map fun t => (t.1, t.1.wording former? aim?)) ++ (s.share key).told,
        e.effects.tasks + (s.share key).builds⟩ := by
  have habout : e.notes.filterMap (fun note => if note.2.1 = key then some (note.1, note.2.2)
      else none) = e.effects.told.map fun t => (t.1, t.1.wording former? aim?) := by
    rw [hw.notes, List.filterMap_map, ← List.filterMap_eq_map]
    refine List.filterMap_congr fun t ht => ?_
    simp [htold t ht]
  simp only [share, after, decide_true, List.filter_cons_of_pos, List.map_cons, List.flatMap_cons,
    List.sum_cons, Served.about, habout]

/-- It adds nothing to that of a key that it neither is for nor tells of. -/
theorem share_after_of_ne (hw : e.IsWorded key former? aim?)
    (htold : ∀ t ∈ e.effects.told, t.2 ≠ other) (hne : other.text ≠ text)
    (hroster : e.roster.get? other = s.roster.get? other) :
    (s.after text e verdict).share other = s.share other := by
  have habout : e.notes.filterMap (fun note => if note.2.1 = other then some (note.1, note.2.2)
      else none) = [] := by
    rw [hw.notes, List.filterMap_map]
    refine List.filterMap_eq_nil_iff.mpr fun t ht => ?_
    simp [htold t ht]
  have hskip : ¬text = other.text := fun he => hne he.symm
  simp only [share, after, hroster, List.flatMap_cons, Served.about, habout, List.nil_append,
    decide_eq_true_eq, hskip, not_false_eq_true, List.filter_cons_of_neg]

/-- What a call makes of its own key: of its share, and of the watcher that is registered then. -/
structure Tends (h : Habits) (s : Service) (key : AddonKey) (e : Errand) (verdict : Verdict) :
    Prop where
  share : (s.after key.text e verdict).share key = h.tend key (s.share key)
  told : ∀ t ∈ e.effects.told, t.2 = key
  lives : ∀ handle, e.roster.get? key = some handle →
    h.hasEnded key (h.tend key (s.share key)) = false → ∃ a, e.site.Live handle.child a

/-- No watcher is wanted: the registered one is let go of. -/
theorem tends_of_unwanted (hstops : e.Stops s.site s.roster key)
    (hw : e.IsWorded key ((s.roster.get? key).map Handle.fingerprint) aim?)
    (hnone : (h.shows key (s.share key).verdicts.length).bind Addon.desired = none)
    (hend : e.state = .inr verdict) : Tends h s key e verdict := by
  obtain rfl : verdict = .done := Sum.inr.inj (hend.symm.trans hstops.state)
  have hgone : e.roster.get? key = none := by
    rw [hstops.absent]
    exact Roster.get?_erase_self _ _
  have htold : ∀ t ∈ e.effects.told, t.2 = key := by
    intro t ht
    rw [hstops.effects] at ht
    obtain ⟨former, -, rfl⟩ := Option.map_eq_some_iff.mp (Option.mem_toList.mp ht)
    rfl
  refine ⟨?_, htold, fun handle hg => ?_⟩
  · refine (share_after_self hw htold).trans ?_
    have hentry : (s.share key).entry = (s.roster.get? key).map Handle.fingerprint := rfl
    generalize s.share key = p at hentry hnone ⊢
    have hword : ∀ former?, Notice.stopped.wording former? aim? =
        Notice.stopped.wording former? none := fun _ => rfl
    simp only [hgone, hstops.effects, Habits.tend, hnone, Share.words, hentry]
    cases s.roster.get? key <;> simp [hword]
  · rw [hgone] at hg
    cases hg

/-- A call that neither does nor tells anything. -/
theorem idle_effects (site : Site) (roster : Roster) (verdict : Verdict) :
    (⟨site, roster, .inr verdict, [(site, site)]⟩ : Errand).effects = {} :=
  (Effects.add_zero _).trans (Effects.between_self site)

theorem idle_isWorded (key : AddonKey) (site : Site) (roster : Roster) (verdict : Verdict) :
    (⟨site, roster, .inr verdict, [(site, site)]⟩ : Errand).IsWorded key none none := by
  refine ⟨?_, fun work hgo => by cases hgo⟩
  rw [idle_effects]
  simp [Errand.notes, Site.notes, Site.marksTo]

theorem share_after_idle (s : Service) (key : AddonKey) (verdict : Verdict) :
    (s.after key.text ⟨s.site, s.roster, .inr verdict, [(s.site, s.site)]⟩ verdict).share key =
      { s.share key with verdicts := verdict :: (s.share key).verdicts } := by
  have heffects := idle_effects s.site s.roster verdict
  rw [share_after_self (idle_isWorded key s.site s.roster verdict) (by simp [heffects])]
  simp only [heffects, List.map_nil, List.nil_append, Nat.zero_add]
  rfl

/-- The registered watcher lives and is on the right object: it stays. -/
theorem tends_of_current (hentry : (s.share key).entry = some reference.fingerprint)
    (hwanted : (h.shows key (s.share key).verdicts.length).bind Addon.desired = some reference)
    (hup : h.hasEnded key (s.share key) = false)
    (hlives : ∀ handle, s.roster.get? key = some handle → ∃ a, s.site.Live handle.child a) :
    Tends h s key ⟨s.site, s.roster, .inr .done, [(s.site, s.site)]⟩ .done := by
  refine ⟨?_, ?_, fun handle hg _ => hlives handle hg⟩
  · rw [share_after_idle]
    simp only [Habits.tend, hwanted, hentry, hup, and_self, if_true]
  · rw [idle_effects]
    simp

theorem announced_key {former? : Option Handle} {aim : Fingerprint} {t : Notice × AddonKey}
    (ht : t ∈ Reconciling.announced key former? aim) : t.2 = key := by
  unfold Reconciling.announced at ht
  split at ht
  · cases ht
  · split at ht
    · cases ht
    · rw [List.mem_singleton.mp ht]

/-- What is told before another watcher is to start depends on the object of the former one. -/
theorem words_announced (s : Service) (key : AddonKey) (aim : Fingerprint) :
    ((Reconciling.announced key (s.roster.get? key) aim).map fun t =>
        (t.1, t.1.wording ((s.roster.get? key).map Handle.fingerprint) (some aim))) =
      (s.share key).words (some aim) ((s.share key).changes aim) := by
  have hentry : (s.share key).entry = (s.roster.get? key).map Handle.fingerprint := rfl
  simp only [Reconciling.announced, Share.words, Share.changes, hentry]
  cases s.roster.get? key with
  | none => rfl
  | some former =>
    simp only [Option.map_some]
    split <;> rfl

theorem asked_of_starts {began : Site} {roster : Roster} {act : Act}
    (h : e.Starts began roster key reference act) :
    e.effects.asked = [(reference.target, act)] := by
  by_cases hgranted : act.within began.settings.callTimeout = some .granted
  · obtain ⟨_, _, _, _, heffects⟩ := h.granted hgranted
    rw [heffects]
  · rw [(h.otherwise hgranted).2]

/-- The registered watcher, if there is one, is not the right one: the object is asked for. -/
theorem tends_of_outdated {act : Act} (hstarts : e.Starts s.site s.roster key reference act)
    (hw : e.IsWorded key ((s.roster.get? key).map Handle.fingerprint)
      (some reference.fingerprint))
    (ht : s.site.settings.callTimeout = h.timeout)
    (hwanted : (h.shows key (s.share key).verdicts.length).bind Addon.desired = some reference)
    (hold : (s.share key).entry = some reference.fingerprint → h.hasEnded key (s.share key) = true)
    (hdeals : h.Deals key (s.share key).asked.length e.effects.asked)
    (hend : e.state = .inr verdict) : Tends h s key e verdict := by
  obtain rfl : verdict = _ := Sum.inr.inj (hend.symm.trans hstarts.state)
  have hnot : ¬((s.share key).entry = some reference.fingerprint ∧
      h.hasEnded key (s.share key) = false) := by
    rintro ⟨hentry, hup⟩
    rw [hold hentry] at hup
    cases hup
  have hact : h.deals key reference.target (s.share key).asked.length = act :=
    (hdeals [] reference.target act [] (asked_of_starts hstarts)).symm
  by_cases hin : act.within h.timeout = some .granted
  · obtain ⟨child, -, hlive, hroster, heffects⟩ := hstarts.granted (ht ▸ hin)
    have htold : ∀ t ∈ e.effects.told, t.2 = key := by
      intro t htmem
      rw [heffects] at htmem
      rcases List.mem_cons.mp htmem with rfl | hmem
      · rfl
      · exact announced_key hmem
    have hentry : e.roster.get? key = some ⟨reference.fingerprint, child⟩ := by
      rw [hroster]
      exact Roster.get?_insert_self _ _ _
    refine ⟨?_, htold, fun handle hg _ => ?_⟩
    · refine (share_after_self hw htold).trans ?_
      have hchanges := words_announced s key reference.fingerprint
      simp only [Habits.tend, hwanted, if_neg hnot, hact, hin, if_true, hentry, heffects, ht]
      simp only [Share.words, List.map_cons, List.map_nil, hchanges, Nat.add_comm 1]
      rfl
    · obtain rfl : _ = handle := Option.some.inj (hentry.symm.trans hg)
      exact ⟨_, hlive⟩
  · obtain ⟨hroster, heffects⟩ := hstarts.otherwise (ht ▸ hin)
    have htold : ∀ t ∈ e.effects.told, t.2 = key := by
      intro t htmem
      rw [heffects] at htmem
      exact announced_key htmem
    have hgone : e.roster.get? key = none := by
      rw [hroster]
      exact Roster.get?_erase_self _ _
    refine ⟨?_, htold, fun handle hg _ => ?_⟩
    · refine (share_after_self hw htold).trans ?_
      have hchanges := words_announced s key reference.fingerprint
      simp only [Habits.tend, hwanted, if_neg hnot, hact, hin, if_false, hgone, heffects, ht,
        hchanges, Nat.zero_add]
      rfl
    · rw [hgone] at hg
      cases hg

end Service

end AddonWatch

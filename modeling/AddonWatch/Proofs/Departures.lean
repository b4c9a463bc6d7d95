import AddonWatch.Proofs.Succession

namespace AddonWatch

namespace Site

variable {site : Site} {i : Nat} {child : Child}

/-- A panic that has been caught behind the loop of a watcher is remarked on. -/
def remarkOn (site : Site) (key : AddonKey) : Ending → Site
  | .returns => site
  | .crashes => site.log .error ("Config watcher of addon " ++ key.text ++ " panicked")

/-- A watcher that has stopped by itself counts as cancelled. -/
def goStale (site : Site) (i : Nat) (key : AddonKey) : Site :=
  (site.log .warn ("Config watcher of addon " ++ key.text ++ " stopped unexpectedly")).fire i

/-- The key of a watcher is reported, where somebody listens. -/
def reportKey (site : Site) (key : AddonKey) : Site :=
  if site.reportsExits then { site with exits := site.exits ++ [key.text] } else site

theorem finish_fire (site : Site) (i : Nat) (condition : Condition) :
    (site.fire i).finish i condition = (site.finish i condition).fire i := by
  have hfeed : (site.fire i).children[i]?.bind Child.feed? =
      site.children[i]?.bind Child.feed? := by
    rw [fire, getElem?_setChild, if_pos rfl]
    cases site.children[i]? <;> rfl
  have hchildren : (site.children.modify i fun child => { child with fired := true }).modify i
      (fun child => { child with condition := condition }) =
      (site.children.modify i fun child => { child with condition := condition }).modify i
        fun child => { child with fired := true } := by
    rw [List.modify_modify_eq, List.modify_modify_eq]
    rfl
  unfold finish
  rw [hfeed]
  simp only [fire, setChild, hchildren]

theorem finish_goStale (site : Site) (i : Nat) (condition : Condition) (key : AddonKey) :
    (site.goStale i key).finish i condition = (site.finish i condition).goStale i key :=
  finish_fire _ i condition

theorem finish_reportKey (site : Site) (i : Nat) (condition : Condition) (key : AddonKey) :
    (site.reportKey key).finish i condition = (site.finish i condition).reportKey key := by
  unfold reportKey
  change _ = if site.reportsExits then _ else _
  split <;> rfl

theorem endGuarded_eq_reportExit (site : Site) (i : Nat) (key : AddonKey) (ending : Ending) :
    site.endGuarded i key ending =
      ((site.remarkOn key ending).finish i .returned).reportExit i key := by
  cases ending <;> rfl

theorem getElem?_remarkOn (site : Site) (i : Nat) (key : AddonKey) (ending : Ending) :
    (site.remarkOn key ending).children[i]? = site.children[i]? := by
  cases ending <;> rfl

theorem isCancelled_remarkOn (site : Site) (child : Child) (key : AddonKey) (ending : Ending) :
    (site.remarkOn key ending).isCancelled child = site.isCancelled child := by
  cases ending <;> rfl

/-- The end of a watcher that nothing has cancelled: its trigger is fired first, then its key is
reported, and at last its task is over. -/
theorem endGuarded_of_live (key : AddonKey) (ending : Ending)
    (hc : site.children[i]? = some child) (hn : site.isCancelled child = false) :
    site.endGuarded i key ending =
      (((site.remarkOn key ending).goStale i key).reportKey key).finish i .returned := by
  have hf := getElem?_finish_self .returned ((site.getElem?_remarkOn i key ending).trans hc)
  have hn' : ((site.remarkOn key ending).finish i .returned).isCancelled
      { child with condition := .returned } = false :=
    (site.isCancelled_remarkOn child key ending).trans hn
  rw [finish_reportKey, finish_goStale, endGuarded_eq_reportExit]
  simp only [reportExit, hf, hn', Bool.false_eq_true, if_false]
  rfl

theorem endGuarded_of_cancelled (key : AddonKey) (ending : Ending)
    (hc : site.children[i]? = some child) (hn : site.isCancelled child = true) :
    site.endGuarded i key ending = (site.remarkOn key ending).finish i .returned := by
  have hf := getElem?_finish_self .returned ((site.getElem?_remarkOn i key ending).trans hc)
  rw [endGuarded_eq_reportExit]
  exact reportExit_of_cancelled hf ((site.isCancelled_remarkOn child key ending).trans hn)

end Site

namespace Reconciling

variable {text : String} {key : AddonKey} {handle : Handle} {roster : Roster} {site : Site}

/-- A registered handle that is not live any more is taken out by the next call for its key. -/
theorem start_erases (hp : AddonKey.parse text = .ok key) (hg : roster.get? key = some handle)
    (hdead : handle.isLive site = false) : (start text roster site).2.1 = roster.erase key := by
  have hcurrent : ∀ fingerprint,
      (roster.get? key).any (·.isCurrent site fingerprint) = false := fun fingerprint => by
    simp [hg, Handle.isCurrent, hdead]
  cases ha : site.hub.addon? key.objectName with
  | none =>
    obtain ⟨next, he, -⟩ := stop_of_some site hg
    rw [start_of_unwanted roster hp (by simp [ha]), he]
  | some addon =>
    cases hd : addon.desired with
    | none =>
      obtain ⟨next, he, -⟩ := stop_of_some site hg
      rw [start_of_unwanted roster hp (by simp [ha, hd]), he]
    | some reference =>
      obtain ⟨next, he, -⟩ := replace_of_some addon reference site hg
      rw [start_of_outdated hp ha hd (hcurrent _), he]

end Reconciling

/-- How far the task of a watcher has got: it is in its loop; it has left it, and nothing had
cancelled it by then; its trigger is fired; nothing is left to report; it is over. -/
inductive Parting where
  | looping
  | unmarked
  | unreported
  | spent
  | gone
deriving DecidableEq, Repr, Inhabited

/-- The number of steps that a task has to take behind its loop. -/
def Parting.left : Parting → Nat
  | .looping => 4
  | .unmarked => 3
  | .unreported => 2
  | .spent => 1
  | .gone => 0

/-- The task of a watcher that reports its own end, with what others see at every point of it: what
it shares with them, how far it has got, whether it was cancelled when its loop ended, and what it
has reported itself. -/
structure Tenure where
  site : Site
  parting : Parting := .looping
  cancelled? : Option Bool := none
  sent : List String := []

namespace Tenure

/-- What a step of the task itself adds to the reported keys, the task has reported. -/
def sentWith (t : Tenure) (site : Site) : List String :=
  t.sent ++ site.exits.drop t.site.exits.length

def onTo (t : Tenure) (site : Site) (parting : Parting) : Tenure where
  site := site
  parting := parting
  cancelled? := t.cancelled?
  sent := t.sentWith site

/-- The loop has ended on that site, and the task looks at once whether it was cancelled. -/
def leave (t : Tenure) (child : Child) (key : AddonKey) (site : Site) (ending : Ending) :
    Tenure where
  site := site.remarkOn key ending
  parting := if t.site.isCancelled child then .spent else .unmarked
  cancelled? := some (t.site.isCancelled child)
  sent := t.sentWith (site.remarkOn key ending)

/-- The task is in its loop, and nobody has stopped it for good. -/
structure Loops (t : Tenure) (i : Nat) (child : Child) (f : Follower) : Prop where
  parting : t.parting = .looping
  found : t.site.children[i]? = some child
  running : child.isFinished = false
  body : child.body = .guarded f

/-- What the task does next by itself. A panic may end its loop at any point; behind the loop the
task never waits, but others may act between any two of its steps. -/
inductive Acts (i : Nat) (t : Tenure) : Tenure → Prop
  | goesOn (child : Child) (f f' : Follower) (site : Site) (h : t.Loops i child f)
      (hstep : f.step i (t.site.isCancelled child) t.site = some (site, .inl f')) :
      Acts i t (t.onTo (site.setChild i (·.withFollower f')) .looping)
  | leaves (child : Child) (f : Follower) (site : Site) (ending : Ending) (h : t.Loops i child f)
      (hstep : f.step i (t.site.isCancelled child) t.site = some (site, .inr ending)) :
      Acts i t (t.leave child f.assignment.key site ending)
  | panics (child : Child) (f : Follower) (h : t.Loops i child f) :
      Acts i t (t.leave child f.assignment.key t.site .crashes)
  | marks (a : Assignment) (ha : t.site.assignment? i = some a) (hp : t.parting = .unmarked) :
      Acts i t (t.onTo (t.site.goStale i a.key) .unreported)
  | reports (a : Assignment) (ha : t.site.assignment? i = some a) (hp : t.parting = .unreported) :
      Acts i t (t.onTo (t.site.reportKey a.key) .spent)
  | ends (hp : t.parting = .spent) : Acts i t (t.onTo (t.site.finish i .returned) .gone)

/-- What can happen next: the task acts, or others change what it shares with them. -/
inductive Turns (i : Nat) (t : Tenure) : Tenure → Prop
  | acts (next : Tenure) (h : t.Acts i next) : Turns i t next
  | others (site : Site) (hg : t.site.Grows site) : Turns i t { t with site := site }

/-- What the task comes to, from the moment at which its watcher is started for that assignment. -/
inductive Reached (i : Nat) (a : Assignment) : Tenure → Prop
  | start (site : Site) (hr : site.reportsExits = true) (ha : site.assignment? i = some a) :
      Reached i a { site := site }
  | next (t t' : Tenure) (h : Reached i a t) (ht : t.Turns i t') : Reached i a t'

/-- What it comes to from there on. -/
inductive Later (i : Nat) (t : Tenure) : Tenure → Prop
  | refl : Later i t t
  | next (mid last : Tenure) (h : Later i t mid) (ht : mid.Turns i last) : Later i t last

end Tenure

namespace Site

variable {site : Site} {i : Nat} {child : Child} {a : Assignment}

theorem ages_remarkOn (site : Site) (key : AddonKey) (ending : Ending) :
    site.Ages (site.remarkOn key ending) := by
  cases ending with
  | returns => exact .refl site
  | crashes => exact .hub_trace site site.hub _ site.exits

theorem ages_goStale (site : Site) (i : Nat) (key : AddonKey) : site.Ages (site.goStale i key) :=
  (Ages.hub_trace site site.hub _ site.exits).trans (.fire _ i)

theorem ages_reportKey (site : Site) (key : AddonKey) : site.Ages (site.reportKey key) := by
  unfold reportKey
  split
  · exact .hub_trace site site.hub site.trace _
  · exact .refl site

theorem exits_remarkOn (site : Site) (key : AddonKey) (ending : Ending) :
    (site.remarkOn key ending).exits = site.exits := by
  cases ending <;> rfl

theorem past_goStale (key : AddonKey) (ha : site.assignment? i = some a) :
    (site.goStale i key).Past i := by
  have hi := lt_length_of_assignment? ha
  exact Reconciling.Moves.past_fire hi

end Site

namespace Tenure

variable {t t' next last : Tenure} {i : Nat} {a : Assignment} {child : Child} {f : Follower}
  {site : Site}

theorem sentWith_eq (h : site.exits = t.site.exits) : t.sentWith site = t.sent := by
  simp [sentWith, h]

theorem sent_leave (child : Child) (key : AddonKey) (ending : Ending)
    (h : site.exits = t.site.exits) : (t.leave child key site ending).sent = t.sent :=
  sentWith_eq ((site.exits_remarkOn key ending).trans h)

theorem Acts.ages (h : t.Acts i next) : t.site.Ages next.site := by
  cases h with
  | goesOn child f f' site h hstep =>
    have hassign := Follower.step_assignment hstep
    obtain ⟨hub, trace, rfl⟩ := Follower.step_shared hstep
    exact (Site.Ages.hub_trace t.site hub trace t.site.exits).trans
      (Site.ages_withFollower h.found h.body hassign)
  | leaves child f site ending h hstep =>
    obtain ⟨hub, trace, rfl⟩ := Follower.step_shared hstep
    exact (Site.Ages.hub_trace t.site hub trace t.site.exits).trans (Site.ages_remarkOn _ _ _)
  | panics child f => exact t.site.ages_remarkOn f.assignment.key .crashes
  | marks => exact Site.ages_goStale _ _ _
  | reports => exact Site.ages_reportKey _ _
  | ends => exact .finish _ i (by simp)

/-- What is reported when nothing is left to report: nothing by a task that was cancelled when its
loop ended, and the key by one that was not, whose handle is stale. -/
def HasReported (t : Tenure) (i : Nat) (a : Assignment) : Prop :=
  t.cancelled? = some true ∧ t.sent = [] ∨
    t.cancelled? = some false ∧ t.sent = [a.key.text] ∧ t.site.Past i

/-- What a task has found out and reported so far, by how far it has got. -/
def Fits (t : Tenure) (i : Nat) (a : Assignment) : Prop :=
  match t.parting with
  | .looping => t.cancelled? = none ∧ t.sent = []
  | .unmarked => t.cancelled? = some false ∧ t.sent = []
  | .unreported => t.cancelled? = some false ∧ t.sent = [] ∧ t.site.Past i
  | .spent => t.HasReported i a
  | .gone => t.HasReported i a ∧ t.site.isFinished i = true

/-- The task reports for its own key, and what it has reported fits. -/
structure Keeps (t : Tenure) (i : Nat) (a : Assignment) : Prop where
  reports : t.site.reportsExits = true
  assignment : t.site.assignment? i = some a
  fits : t.Fits i a

theorem HasReported.grows (h : t.HasReported i a) (hg : t.site.Grows site) :
    ({ t with site := site } : Tenure).HasReported i a :=
  h.imp id fun ⟨hn, hsent, hp⟩ => ⟨hn, hsent, hg.past hp⟩

theorem Fits.grows (h : t.Fits i a) (hi : i < t.site.children.length) (hg : t.site.Grows site) :
    ({ t with site := site } : Tenure).Fits i a := by
  unfold Fits at h ⊢
  cases hp : t.parting <;> simp only [hp] at h ⊢
  case looping => exact h
  case unmarked => exact h
  case unreported => exact ⟨h.1, h.2.1, hg.past h.2.2⟩
  case spent => exact h.grows hg
  case gone => exact ⟨h.1.grows hg, hg.finished hi h.2⟩

theorem Fits.loops (h : t.Fits i a) (hl : t.Loops i child f) :
    t.cancelled? = none ∧ t.sent = [] := by
  simpa only [Fits, hl.parting] using h

/-- Nothing is reported as the loop ends. -/
theorem Fits.leave (h : t.Fits i a) (hl : t.Loops i child f) (key : AddonKey) (ending : Ending)
    (hexits : site.exits = t.site.exits) : (t.leave child key site ending).Fits i a := by
  have hsent := (sent_leave child key ending hexits).trans (h.loops hl).2
  unfold Fits Tenure.leave
  cases hc : t.site.isCancelled child with
  | true => exact .inl ⟨rfl, hsent⟩
  | false => exact ⟨rfl, hsent⟩

theorem Keeps.acts (h : t.Keeps i a) (ha : t.Acts i next) : next.Keeps i a := by
  have hages := ha.ages
  refine ⟨hages.reports.trans h.reports, (hages.assignment i).trans h.assignment, ?_⟩
  have hfits := h.fits
  cases ha with
  | goesOn child f f' site hl hstep =>
    obtain ⟨hub, trace, rfl⟩ := Follower.step_shared hstep
    obtain ⟨hnone, hsent⟩ := hfits.loops hl
    exact ⟨hnone, (sentWith_eq rfl).trans hsent⟩
  | leaves child f site ending hl hstep =>
    obtain ⟨hub, trace, rfl⟩ := Follower.step_shared hstep
    exact hfits.leave hl _ _ rfl
  | panics child f hl => exact hfits.leave hl _ _ rfl
  | marks b hb hp =>
    simp only [Fits, hp] at hfits
    exact ⟨hfits.1, (sentWith_eq rfl).trans hfits.2, Site.past_goStale b.key hb⟩
  | reports b hb hp =>
    obtain rfl : a = b := Option.some.inj (h.assignment.symm.trans hb)
    simp only [Fits, hp] at hfits
    obtain ⟨hn, hsent, hpast⟩ := hfits
    refine .inr ⟨hn, ?_, hages.grows.past hpast⟩
    simp [onTo, sentWith, Site.reportKey, h.reports, hsent]
  | ends hp =>
    simp only [Fits, hp] at hfits
    refine ⟨?_, Site.isFinished_finish i (by simp)⟩
    refine hfits.imp (fun ⟨hc, hsent⟩ => ⟨hc, (sentWith_eq rfl).trans hsent⟩)
      fun ⟨hn, hsent, hpast⟩ => ⟨hn, (sentWith_eq rfl).trans hsent, hages.grows.past hpast⟩

theorem Keeps.turns (h : t.Keeps i a) (ht : t.Turns i next) : next.Keeps i a := by
  cases ht with
  | acts _ ha => exact h.acts ha
  | others site hg =>
    have hi := Site.lt_length_of_assignment? h.assignment
    exact ⟨hg.reports.trans h.reports, (hg.assignment i hi).trans h.assignment,
      h.fits.grows hi hg⟩

theorem Reached.keeps (h : t.Reached i a) : t.Keeps i a := by
  induction h with
  | start site hr ha => exact ⟨hr, ha, rfl, rfl⟩
  | next t t' _ ht ih => exact ih.turns ht

theorem Keeps.later (h : t.Keeps i a) (hl : t.Later i last) : last.Keeps i a := by
  induction hl with
  | refl => exact h
  | next mid last _ ht ih => exact ih.turns ht

theorem HasReported.sent_eq (h : t.HasReported i a) :
    t.cancelled? ≠ none ∧ t.sent = if t.cancelled? = some false then [a.key.text] else [] := by
  rcases h with ⟨hc, hsent⟩ | ⟨hc, hsent, -⟩
  · simp [hc, hsent]
  · simp [hc, hsent]

/-- Nothing is reported before nothing is left to report, and then the key by a task that was not
cancelled when its loop ended. -/
theorem Fits.sent_eq (h : t.Fits i a) :
    (t.parting = .looping ↔ t.cancelled? = none) ∧
      t.sent = if t.cancelled? = some false ∧ (t.parting = .spent ∨ t.parting = .gone) then
        [a.key.text] else [] := by
  unfold Fits at h
  cases hp : t.parting <;> simp only [hp] at h
  case looping => simp [h.1, h.2]
  case unmarked => simp [h.1, h.2]
  case unreported => simp [h.1, h.2.1]
  case spent => simp [h.sent_eq.1, h.sent_eq.2]
  case gone => simp [h.1.sent_eq.1, h.1.sent_eq.2]

theorem HasReported.past (h : t.HasReported i a) (hne : t.sent ≠ []) : t.site.Past i := by
  rcases h with ⟨-, hsent⟩ | ⟨-, -, hpast⟩
  · exact absurd hsent hne
  · exact hpast

/-- The handle of a task that has reported its key is stale. -/
theorem Fits.past (h : t.Fits i a) (hne : t.sent ≠ []) : t.site.Past i := by
  unfold Fits at h
  cases hp : t.parting <;> simp only [hp] at h
  case looping => exact absurd h.2 hne
  case unmarked => exact absurd h.2 hne
  case unreported => exact h.2.2
  case spent => exact h.past hne
  case gone => exact h.1.past hne

/-- Behind its loop a task never waits, and each step that it takes is one less to take. -/
theorem Keeps.acts_on (h : t.Keeps i a) (hp : t.parting ≠ .looping) :
    (t.parting ≠ .gone → ∃ next, t.Acts i next) ∧ ∀ next, t.Acts i next →
      next.parting.left + 1 = t.parting.left ∧ next.cancelled? = t.cancelled? := by
  refine ⟨fun hgone => ?_, fun next ha => ?_⟩
  · cases hat : t.parting with
    | looping => exact absurd hat hp
    | unmarked => exact ⟨_, .marks a h.assignment hat⟩
    | unreported => exact ⟨_, .reports a h.assignment hat⟩
    | spent => exact ⟨_, .ends hat⟩
    | gone => exact absurd hat hgone
  · cases ha with
    | goesOn _ _ _ _ hl => exact absurd hl.parting hp
    | leaves _ _ _ _ hl => exact absurd hl.parting hp
    | panics _ _ hl => exact absurd hl.parting hp
    | marks _ _ hat => exact ⟨by rw [hat]; rfl, rfl⟩
    | reports _ _ hat => exact ⟨by rw [hat]; rfl, rfl⟩
    | ends hat => exact ⟨by rw [hat]; rfl, rfl⟩

theorem Acts.cancelled_of_leaves (h : t.Acts i next) (hp : t.parting = .looping)
    (hn : next.parting ≠ .looping) :
    next.cancelled? = t.site.children[i]?.map t.site.isCancelled := by
  cases h with
  | goesOn => exact absurd rfl hn
  | leaves _ _ _ _ hl => rw [hl.found]; rfl
  | panics _ _ hl => rw [hl.found]; rfl
  | marks _ _ hat | reports _ _ hat | ends hat =>
    rw [hp] at hat
    cases hat

/-- No step of a task takes back or repeats what it has reported. -/
theorem Keeps.sent_of_turns (h : t.Keeps i a) (hne : t.sent ≠ []) (ht : t.Turns i next) :
    next.sent = t.sent := by
  cases ht with
  | others => rfl
  | acts _ ha =>
    have hfits := h.fits
    cases ha with
    | goesOn _ _ _ _ hl => exact absurd (hfits.loops hl).2 hne
    | leaves _ _ _ _ hl => exact absurd (hfits.loops hl).2 hne
    | panics _ _ hl => exact absurd (hfits.loops hl).2 hne
    | marks _ _ hat => exact sentWith_eq rfl
    | reports _ _ hat =>
      simp only [Fits, hat] at hfits
      exact absurd hfits.2.1 hne
    | ends => exact sentWith_eq rfl

theorem Keeps.sent_of_later (h : t.Keeps i a) (hne : t.sent ≠ []) (hl : t.Later i last) :
    last.sent = t.sent := by
  induction hl with
  | refl => rfl
  | next mid last hl ht ih => exact ((h.later hl).sent_of_turns (ih ▸ hne) ht).trans ih

/-- Once its key is reported, the handle of a watcher never counts as live again, and the next call
for its key takes it out. -/
theorem Keeps.stale (h : t.Keeps i a) (hne : t.sent ≠ []) (hl : t.Later i last)
    {handle : Handle} (hi : handle.child = i) :
    handle.isLive last.site = false ∧ ∀ text key roster, AddonKey.parse text = .ok key →
      roster.get? key = some handle →
        (Reconciling.start text roster last.site).2.1.get? key = none := by
  have hlast := h.later hl
  have hpast := hlast.fits.past ((h.sent_of_later hne hl).symm ▸ hne)
  subst hi
  have hdead : handle.isLive last.site = false := by
    by_contra hlive
    exact hpast.2 a (handle.live_of_isLive hlast.assignment (eq_true_of_ne_false hlive))
  refine ⟨hdead, fun text key roster hp hg => ?_⟩
  rw [Reconciling.start_erases hp hg hdead]
  exact Roster.get?_erase_self roster key

/-- Behind its loop, and undisturbed, a task that was not cancelled marks itself, reports and
ends. -/
theorem leave_ends (t : Tenure) (site : Site) (hassign : site.assignment? i = some a)
    (ending : Ending) (hc : site.children[i]? = some child)
    (hcancel : site.isCancelled child = t.site.isCancelled child) :
    ∃ last, Relation.TransGen (Acts i) (t.leave child a.key site ending) last ∧
      last.site = site.endGuarded i a.key ending ∧ last.parting = .gone := by
  have hleft : (t.leave child a.key site ending).parting =
      if site.isCancelled child then .spent else .unmarked := by rw [hcancel]; rfl
  cases hn : site.isCancelled child with
  | true =>
    rw [hn] at hleft
    rw [Site.endGuarded_of_cancelled a.key ending hc hn]
    exact ⟨_, .single (.ends hleft), rfl, rfl⟩
  | false =>
    rw [hn] at hleft
    rw [Site.endGuarded_of_live a.key ending hc hn]
    have hbefore := ((site.ages_remarkOn a.key ending).assignment i).trans hassign
    have hmarked := ((Site.ages_goStale _ i a.key).assignment i).trans hbefore
    have hmarks := Relation.TransGen.single (r := Acts i) (.marks a hbefore hleft)
    exact ⟨_, (hmarks.tail (.reports a hmarked rfl)).tail (.ends rfl), rfl, rfl⟩

/-- A poll of a watcher is one step in its loop, or it takes the task to its end. -/
theorem Keeps.polled (h : t.Keeps i a) (hp : t.parting = .looping)
    (hstep : t.site.stepChild i = some site) :
    ∃ last, Relation.TransGen (Acts i) t last ∧ last.site = site ∧
      (last.parting = .looping ∨ last.parting = .gone) := by
  obtain ⟨child, hc, hassign⟩ := Option.bind_eq_some_iff.mp h.assignment
  obtain ⟨f, hb, rfl⟩ := Child.guarded_of_assignment? hassign
  simp only [Site.stepChild, hc, hb, Option.bind_eq_bind, Option.bind_some] at hstep
  split at hstep
  next => cases hstep
  next hrun =>
    have hl : t.Loops i child f := ⟨hp, hc, eq_false_of_ne_true hrun, hb⟩
    obtain ⟨⟨after, result⟩, hstep, he⟩ := Option.map_eq_some_iff.mp hstep
    cases result with
    | inl f' =>
      exact ⟨_, .single (.goesOn child f f' after hl hstep), he, .inl rfl⟩
    | inr ending =>
      have hleaves := Acts.leaves child f after ending hl hstep
      obtain ⟨hub, trace, rfl⟩ := Follower.step_shared hstep
      obtain ⟨last, hrest, hlast, hgone⟩ :=
        leave_ends t { t.site with hub := hub, trace := trace } h.assignment ending hc rfl
      exact ⟨last, .head hleaves hrest, hlast.trans he, .inr hgone⟩

/-- What the task of a watcher reports: nothing up to the end of its loop, whatever ends it, and
nothing behind it if the task was cancelled by then, but its key once if it was not. From then on
its handle is not live, and the next call for its key takes it out. The polls of a site are made of
such steps, and all else that happens in a supervision is the turn of others. -/
theorem exit_reported_once (h : t.Reached i a) :
    (t.parting = .looping ↔ t.cancelled? = none) ∧
    (t.parting = .looping → ∀ next, t.Acts i next → next.parting ≠ .looping →
      next.cancelled? = t.site.children[i]?.map t.site.isCancelled) ∧
    (t.sent = if t.cancelled? = some false ∧ (t.parting = .spent ∨ t.parting = .gone) then
      [a.key.text] else []) ∧
    (t.parting ≠ .looping →
      (t.parting ≠ .gone → ∃ next, t.Acts i next) ∧ ∀ next, t.Acts i next →
        next.parting.left + 1 = t.parting.left ∧ next.cancelled? = t.cancelled?) ∧
    (t.sent ≠ [] → ∀ last, t.Later i last → last.sent = t.sent ∧
      ∀ handle : Handle, handle.child = i → handle.isLive last.site = false ∧
        ∀ text key roster, AddonKey.parse text = .ok key → roster.get? key = some handle →
          (Reconciling.start text roster last.site).2.1.get? key = none) ∧
    (t.parting = .looping → ∀ site, t.site.stepChild i = some site →
      ∃ last, Relation.TransGen (Acts i) t last ∧ last.site = site ∧
        (last.parting = .looping ∨ last.parting = .gone)) ∧
    (t.parting = .gone → t.site.stepChild i = none) ∧
    ∀ (w : Surroundings) (s next : Supervision), s.Reached w → s.site = t.site → s.Moves w next →
      t.Turns i { t with site := next.site } := by
  have hkeeps := h.keeps
  have hfits := hkeeps.fits
  refine ⟨hfits.sent_eq.1, fun hp next ha => ha.cancelled_of_leaves hp, hfits.sent_eq.2,
    hkeeps.acts_on, fun hne last hl =>
      ⟨hkeeps.sent_of_later hne hl, fun handle => hkeeps.stale hne hl⟩,
    fun hp site => hkeeps.polled hp, fun hp => ?_, fun w s next hs he hm => ?_⟩
  · simp only [Fits, hp] at hfits
    exact Site.stepChild_of_isFinished hfits.2
  · exact .others next.site (he ▸ hs.orderly.grows hm)

open Supervision (firstAssignment)

/-- The only watcher, whose stream the hub has closed. -/
def cutOff : Site where
  hub := { feeds := [{ topic := some firstAssignment.target, closed := true }] }
  children := [{ body := .guarded (.start ({} : Settings).retry firstAssignment 0) }]

/-- The stream of a watcher ends: its key is reported while its task is not over yet, and the handle
does not count as live any more. -/
theorem exit_reported_once_cut_off : ∃ t : Tenure, t.Reached 0 firstAssignment ∧
    t.parting = .spent ∧ t.site.isFinished 0 = false ∧ t.sent = ["ns/a"] ∧
      t.site.exits = ["ns/a"] ∧
      (⟨firstAssignment.fingerprint, 0⟩ : Handle).isLive t.site = false ∧
      (Reconciling.start "ns/a" ⟨[(⟨"ns", "a"⟩, ⟨firstAssignment.fingerprint, 0⟩)]⟩
        t.site).2.1.get? ⟨"ns", "a"⟩ = none := by
  have hstart : ({ site := cutOff } : Tenure).Reached 0 firstAssignment := .start cutOff rfl rfl
  have hleaves := hstart.next _ _ (.acts _ (.leaves _ _ _ .returns ⟨rfl, rfl, rfl, rfl⟩ rfl))
  have hmarks := hleaves.next _ _ (.acts _ (.marks firstAssignment rfl rfl))
  have hreports := hmarks.next _ _ (.acts _ (.reports firstAssignment rfl rfl))
  obtain ⟨-, -, hsent, -, hstale, -⟩ := exit_reported_once hreports
  have hsaid := hsent.trans (if_pos ⟨rfl, .inl rfl⟩)
  obtain ⟨-, hdead⟩ := hstale (by rw [hsaid]; simp) _ .refl
  obtain ⟨hlive, htaken⟩ := hdead ⟨firstAssignment.fingerprint, 0⟩ rfl
  have hparse : AddonKey.parse "ns/a" = .ok ⟨"ns", "a"⟩ :=
    AddonKey.parse_eq_ok_iff.mpr ⟨rfl, by decide⟩
  exact ⟨_, hreports, rfl, rfl, hsaid, rfl, hlive, htaken _ _ _ hparse rfl⟩

end Tenure

end AddonWatch

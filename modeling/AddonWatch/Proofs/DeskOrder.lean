import AddonWatch.Proofs.ReconcilingKey

namespace AddonWatch

/-- The texts that a desk still works through before it looks for work again. -/
def DeskPhase.texts : DeskPhase → List String
  | .working keys => keys
  | .reconciling key _ rest => key :: rest
  | _ => []

namespace Desk

/-- All that a desk holds is of its own partition, and fits together. -/
structure Orderly (desk : Desk) (site : Site) (mine : String → Prop) : Prop where
  retries : desk.KeepsRetries
  inbox : ∀ text, .sync text ∈ desk.inbox → mine text
  alarms : ∀ e ∈ desk.alarms.entries, mine e.2
  texts : ∀ text ∈ desk.phase.texts, mine text
  nodup : desk.roster.keys.Nodup
  entries : ∀ e ∈ desk.roster.entries, mine e.1.text ∧ e.2.IsFor site e.1
  work : ∀ text work rest, desk.phase = .reconciling text work rest →
    work.Fits site desk.roster text

/-- The child is registered here under the key that it was started for. -/
def Registers (desk : Desk) (i : Nat) (a : Assignment) : Prop :=
  desk.isDown = true ∨ desk.roster.get? a.key = some ⟨a.fingerprint, i⟩

namespace Orderly

variable {desk : Desk} {site next : Site} {mine : String → Prop}

theorem grows (hg : site.Grows next) (h : desk.Orderly site mine) : desk.Orderly next mine :=
  { h with
    entries := fun e he => ⟨(h.entries e he).1, (h.entries e he).2.grows hg⟩
    work := fun text work rest hp => (h.work text work rest hp).grows hg }

theorem crash (desk : Desk) (message : String) (site : Site) (mine : String → Prop) :
    (desk.crash message).Orderly site mine where
  retries := {
    numbered := ⟨List.nodup_nil, fun e he => by simp [Desk.crash, Alarms.entries] at he⟩
    alarmed := fun key retry id hl => by simp [Desk.crash] at hl }
  inbox text h := by simp [Desk.crash] at h
  alarms e h := by simp [Desk.crash, Alarms.entries] at h
  texts text h := by simp [Desk.crash, DeskPhase.texts] at h
  nodup := List.nodup_nil
  entries e h := by simp [Desk.crash] at h
  work text work rest h := by simp [Desk.crash] at h

theorem pops {alarms : Alarms} (h : desk.Orderly site mine)
    (hp : desk.alarms.pop site.now = (none, alarms)) :
    { desk with alarms := alarms }.Orderly site mine :=
  { h with
    retries := h.retries.pop_none hp
    alarms := fun e he => h.alarms e ((Alarms.pop_perm h.retries.numbered hp).2.mem_iff.mpr he) }

theorem wakes {alarm : Alarm} {alarms : Alarms} (h : desk.Orderly site mine)
    (hp : desk.alarms.pop site.now = (some alarm, alarms)) :
    (desk.wake alarm alarms).Orderly site mine := by
  have hperm := (Alarms.pop_perm h.retries.numbered hp).2
  exact { h with
    retries := h.retries.wake hp
    alarms := fun e he => h.alarms e (hperm.mem_iff.mpr (List.mem_append_right _ he))
    texts := fun text ht => by
      obtain rfl : text = alarm.key := by simpa [wake, DeskPhase.texts] using ht
      exact h.alarms alarm.entry (hperm.mem_iff.mpr (by simp))
    work := by simp [wake] }

theorem lessens {inbox : List Work} (h : desk.Orderly site mine)
    (hsub : ∀ work ∈ inbox, work ∈ desk.inbox) : { desk with inbox := inbox }.Orderly site mine :=
  { h with
    retries := h.retries.congr rfl rfl
    inbox := fun text ht => h.inbox text (hsub _ ht) }

/-- A desk may come to any phase that is no reconciliation and holds texts of its partition. -/
theorem turnsTo {phase : DeskPhase} (h : desk.Orderly site mine)
    (ht : ∀ text ∈ phase.texts, mine text)
    (hn : ∀ text work rest, phase ≠ .reconciling text work rest) :
    { desk with phase := phase }.Orderly site mine :=
  { h with
    retries := h.retries.congr rfl rfl
    texts := ht
    work := fun text work rest hw => absurd hw (hn text work rest) }

theorem empties (h : desk.Orderly site mine) (hn : ∀ text work rest,
    desk.phase ≠ .reconciling text work rest) : { desk with roster := {} }.Orderly site mine :=
  { h with
    retries := h.retries.congr rfl rfl
    nodup := List.nodup_nil
    entries := by simp
    work := fun text work rest hw => absurd hw (hn text work rest) }

/-- What a reconciliation of the desk leaves registered is of the desk's partition. -/
theorem entries_of_moves {text : String} {work : Reconciling} {rest : List String}
    {roster : Roster} {result : Reconciling ⊕ Verdict} (h : desk.Orderly site mine)
    (hphase : desk.phase = .reconciling text work rest)
    (hm : work.Moves site desk.roster next roster result) :
    ∀ e ∈ roster.entries, mine e.1.text ∧ e.2.IsFor next e.1 := by
  intro e he
  obtain ⟨hfor, hold | hkey⟩ :=
    hm.entries (h.work text work rest hphase) (fun e he => (h.entries e he).2) e he
  · exact ⟨(h.entries e hold).1, hfor⟩
  · exact ⟨hkey ▸ h.texts text (by simp [hphase, DeskPhase.texts]), hfor⟩

end Orderly

/-- A reconciliation that ends breaks the desk down or changes the retries of its key alone. -/
theorem Concludes.frame {desk next : Desk} {key : String} {site after : Site} {verdict : Verdict}
    (h : desk.KeepsRetries) (hc : desk.Concludes key site verdict after next) :
    (∃ message, next = desk.crash message) ∨
      next.KeepsRetries ∧ next.inbox = desk.inbox ∧ next.roster = desk.roster ∧
      next.phase = desk.phase ∧ ∀ e ∈ next.alarms.entries, e ∈ desk.alarms.entries ∨ e.2 = key := by
  cases hc with
  | forgets _ _ _ _ _ _ _ _ hf =>
    right
    have hk := h.forget hf
    obtain ⟨alarms, rfl, ha⟩ := forget_eq hf
    refine ⟨hk, rfl, rfl, rfl, fun e he => .inl ?_⟩
    rcases ha with ⟨rfl, -⟩ | ⟨retry, id, -, -, hr⟩
    · exact he
    · rw [(Alarms.entries_remove? hr).2] at he
      exact (List.mem_filter.mp he).1
  | retries fault _ _ hr =>
    right
    have hk := h.retryLater hr
    obtain ⟨id, alarms, rfl, hset⟩ := retryLater_eq hr
    refine ⟨hk, rfl, rfl, rfl, fun e he => ?_⟩
    rcases hset with ⟨retry, -, -, hs⟩ | ⟨-, hi⟩
    · exact .inl ((Alarms.reset?_perm h.numbered hs).2.mem_iff.mp he)
    · rcases List.mem_cons.mp ((Alarms.insert?_perm hi).2.2.mem_iff.mp he) with rfl | hm
      · exact .inr rfl
      · exact .inl hm
  | _ => exact .inl ⟨_, rfl⟩

theorem Concludes.windsDown {desk next : Desk} {key : String} {site after : Site}
    {verdict : Verdict} (hc : desk.Concludes key site verdict after next) :
    site.WindsDown after := by
  cases hc with
  | forgets _ _ level text _ _ _ hsite => rcases hsite with rfl | rfl; exacts [.refl _, .log _ _ _]
  | retries => exact .log site _ _
  | overreaches => exact .log site _ _
  | loses _ level text _ hsite => rcases hsite with rfl | rfl; exacts [.refl _, .log _ _ _]
  | breaks => exact .refl _

namespace Moves

variable {desk desk' : Desk} {isSealed : Bool} {site site' : Site} {mine : String → Prop}

/-- What a desk does to the site is done by the reconciliation that it is at, or winds watchers
down. -/
theorem effect (h : desk.Moves isSealed site site' desk') :
    site.WindsDown site' ∨ ∃ text work rest roster next result,
      desk.phase = .reconciling text work rest ∧
      work.Moves site desk.roster next roster result ∧ next.WindsDown site' := by
  cases h with
  | closes => exact .inl (Closing.start_windsDown _ _ _)
  | goesOn text work work' rest next roster hphase hh hm =>
    exact .inr ⟨text, work, rest, roster, _, _, hphase, hm, .refl _⟩
  | concludes text work rest next after roster verdict desk' hphase hh hm hc =>
    exact .inr ⟨text, work, rest, roster, next, _, hphase, hm, hc.windsDown⟩
  | settles _ _ _ _ hc => exact .inl (Closing.step_windsDown hc)
  | finishes _ _ _ hc => exact .inl (Closing.step_windsDown hc)
  | _ => exact .inl (.refl site)

theorem grows (h : desk.Moves isSealed site site' desk') : site.Grows site' := by
  rcases h.effect with hw | ⟨_, _, _, _, _, _, -, hm, hw⟩
  · exact hw.ages.grows
  · exact hm.grows.trans hw.ages.grows

theorem staffed (h : desk.Moves isSealed site site' desk') (hs : site.Staffed) :
    site'.Staffed := by
  rcases h.effect with hw | ⟨_, _, _, _, _, _, -, hm, hw⟩
  · exact hw.ages.staffed hs
  · exact hw.ages.staffed (hm.staffed hs)

theorem exits (h : desk.Moves isSealed site site' desk') : site'.exits = site.exits := by
  rcases h.effect with hw | ⟨_, _, _, _, _, _, -, hm, hw⟩
  · exact hw.exits
  · exact hw.exits.trans hm.exits

theorem writes (h : desk.Moves isSealed site site' desk') : site'.writes = site.writes := by
  rcases h.effect with hw | ⟨_, _, _, _, _, _, -, hm, hw⟩
  · exact hw.writes
  · exact hw.writes.trans hm.writes

theorem now (h : desk.Moves isSealed site site' desk') : site'.now = site.now := by
  rcases h.effect with hw | ⟨_, _, _, _, _, _, -, hm, hw⟩
  · exact hw.now
  · exact hw.now.trans hm.now

/-- A desk neither cancels the scope nor takes that back. -/
theorem halted (h : desk.Moves isSealed site site' desk') : site'.halted = site.halted := by
  rcases h.effect with hw | ⟨_, _, _, _, _, _, -, hm, hw⟩
  · exact hw.ages.halted
  · exact hw.ages.halted.trans hm.halted

/-- A desk gives no child another body, and spawns one for the subscription that it opens. -/
theorem bodies (h : desk.Moves isSealed site site' desk') :
    site'.bodies = site.bodies ∨ ∃ text key attempt rest,
      desk.phase = .reconciling text (.opening key attempt) rest ∧
      site'.bodies = site.bodies ++ [.guarded (attempt.follower site)] := by
  rcases h.effect with hw | ⟨text, work, rest, _, next, _, hphase, hm, hw⟩
  · exact .inl hw.bodies
  · rcases hm.bodies with he | ⟨key, attempt, rfl, he⟩
    · exact .inl (hw.bodies.trans he)
    · exact .inr ⟨text, key, attempt, rest, hphase, hw.bodies.trans he⟩

theorem orderly_of_concludes {key : String} {work : Reconciling} {rest : List String}
    {next after : Site} {roster : Roster} {verdict : Verdict} (ho : desk.Orderly site mine)
    (hphase : desk.phase = .reconciling key work rest)
    (hm : work.Moves site desk.roster next roster (.inr verdict))
    (hc : ({ desk with roster := roster, phase := .working rest } : Desk).Concludes key next verdict
      after desk') : desk'.Orderly after mine := by
  have hentries := ho.entries_of_moves hphase hm
  have hmine : mine key := ho.texts key (by simp [hphase, DeskPhase.texts])
  have hkeeps := ho.retries.working roster rest
  rcases hc.frame hkeeps with ⟨message, rfl⟩ | ⟨hk, hinbox, hroster, hphase', halarms⟩
  · exact .crash _ message after mine
  · refine ⟨hk, fun text ht => ho.inbox text (hinbox ▸ ht), fun e he => ?_, fun text ht => ?_,
      hroster ▸ hm.nodup ho.nodup, fun e he => ?_, fun text other others hw => ?_⟩
    · rcases halarms e he with hold | hkey
      · exact ho.alarms e hold
      · exact hkey ▸ hmine
    · rw [hphase'] at ht
      exact ho.texts text (by simpa [hphase, DeskPhase.texts] using Or.inr ht)
    · rw [hroster] at he
      exact ⟨(hentries e he).1, (hentries e he).2.grows hc.windsDown.ages.grows⟩
    · rw [hphase'] at hw
      cases hw

theorem orderly (h : desk.Moves isSealed site site' desk') (ho : desk.Orderly site mine) :
    desk'.Orderly site' mine := by
  have hg := h.grows
  cases h with
  | closes alarms hphase hend hp =>
    have hkept : { desk with alarms := alarms }.Orderly site mine := by
      rcases hp with rfl | hp
      · exact ho
      · exact ho.pops hp
    have hempty := hkept.empties (by simp [hphase])
    exact (hempty.turnsTo (by simp [DeskPhase.texts]) (by simp)).grows hg
  | wakes alarm alarms hphase hh hp => exact ho.wakes hp
  | takes key rest alarms hphase hh hp hi =>
    have hless := (ho.pops hp).lessens fun work hw =>
      show work ∈ desk.inbox from hi ▸ List.mem_cons_of_mem _ hw
    refine hless.turnsTo (fun text ht => ?_) (by simp)
    obtain rfl : text = key := by simpa [DeskPhase.texts] using ht
    exact ho.inbox text (by simp [hi])
  | looks rest alarms hphase hh hp hi keys hkeys =>
    have hless := (ho.pops hp).lessens fun work hw =>
      show work ∈ desk.inbox from hi ▸ List.mem_cons_of_mem _ hw
    refine hless.turnsTo (fun text ht => ?_) (by simp)
    obtain ⟨key, hkey, rfl⟩ := List.mem_map.mp ht
    obtain ⟨e, he, rfl⟩ := List.mem_map.mp (hkeys.mem_iff.mp hkey)
    exact (ho.entries e he).1
  | turns alarms hphase hh hp => exact ho.pops hp
  | rests hphase => exact ho.turnsTo (by simp [DeskPhase.texts]) (by simp)
  | begins key rest hphase hh =>
    exact { ho with
      retries := ho.retries.congr rfl rfl
      texts := fun text ht => ho.texts text (by simpa [hphase, DeskPhase.texts] using ht)
      work := fun text work' rest' hw => by
        cases hw
        exact rfl }
  | drops hh hphase => exact ho.turnsTo (by simp [DeskPhase.texts]) (by simp)
  | goesOn key work work' rest next roster hphase hh hm =>
    exact { ho with
      retries := ho.retries.congr rfl rfl
      texts := fun text ht => ho.texts text (by simpa [hphase, DeskPhase.texts] using ht)
      nodup := hm.nodup ho.nodup
      entries := ho.entries_of_moves hphase hm
      work := fun text other others hw => by
        cases hw
        exact hm.fits (ho.work key work rest hphase) fun e he => (ho.entries e he).2 }
  | concludes key work rest next after roster verdict desk' hphase hh hm hc =>
    exact orderly_of_concludes ho hphase hm hc
  | settles closing closing' next hphase hc =>
    exact (ho.turnsTo (by simp [DeskPhase.texts]) (by simp)).grows hg
  | finishes closing next hphase hc =>
    have hless : { desk with inbox := [] }.Orderly site mine := ho.lessens (by simp)
    exact (hless.grows hg).turnsTo (by simp [DeskPhase.texts]) (by simp)

/-- A desk that is over does not go on. -/
theorem not_over (h : desk.Moves isSealed site site' desk') : desk.isOver = false := by
  unfold isOver
  cases h with
  | drops _ hphase =>
    rcases hphase with ⟨keys, hphase⟩ | ⟨key, work, rest, hphase⟩ <;> rw [hphase]
  | closes _ hphase => rw [hphase]
  | wakes _ _ hphase => rw [hphase]
  | takes _ _ _ hphase => rw [hphase]
  | looks _ _ hphase => rw [hphase]
  | turns _ hphase => rw [hphase]
  | rests hphase => rw [hphase]
  | begins _ _ hphase => rw [hphase]
  | goesOn _ _ _ _ _ _ hphase => rw [hphase]
  | concludes _ _ _ _ _ _ _ _ hphase => rw [hphase]
  | settles _ _ _ hphase => rw [hphase]
  | finishes _ _ hphase => rw [hphase]

theorem not_down (h : desk.Moves isSealed site site' desk') : ¬desk.isDown = true := by
  intro hdown
  have hover := isOver_of_isDown hdown
  rw [h.not_over] at hover
  cases hover

/-- Live children of this partition are in the roster that a step comes to, which is lost only with
the desk, and no others are started. -/
theorem registers (h : desk.Moves isSealed site site' desk') (ho : desk.Orderly site mine)
    (hreg : ∀ i a, site.Live i a → mine a.key.text →
      desk.roster.get? a.key = some ⟨a.fingerprint, i⟩) :
    ∃ roster, (desk'.isDown = true ∨ desk'.roster = roster) ∧ ∀ i a, site'.Live i a →
      (mine a.key.text → roster.get? a.key = some ⟨a.fingerprint, i⟩) ∧
        (site.Live i a ∨ mine a.key.text) := by
  have hkeep : site.Ages site' → ∀ i a, site'.Live i a →
      (mine a.key.text → desk.roster.get? a.key = some ⟨a.fingerprint, i⟩) ∧
        (site.Live i a ∨ mine a.key.text) :=
    fun hages i a hl => ⟨hreg i a (hages.live i a hl), .inl (hages.live i a hl)⟩
  cases h with
  | closes alarms hphase hend hp =>
    refine ⟨{}, .inr rfl, fun i a hl => ⟨fun hm => ?_, ?_⟩⟩
    · have hold := (Closing.start_windsDown _ _ _).ages.live i a hl
      exact absurd hl (Closing.not_live_start (Roster.mem_of_get? (hreg i a hold hm)) a)
    · exact .inl ((Closing.start_windsDown _ _ _).ages.live i a hl)
  | goesOn key work work' rest next roster hphase hh hm =>
    have hmine : mine key := ho.texts key (by simp [hphase, DeskPhase.texts])
    refine ⟨roster, .inr rfl, fun i a hl => ?_⟩
    obtain ⟨hr, hold⟩ := hm.registers (ho.work key work rest hphase) hreg hl
    exact ⟨hr, hold.imp_right fun he : a.key.text = key => he ▸ hmine⟩
  | concludes key work rest next after roster verdict desk' hphase hh hm hc =>
    have hmine : mine key := ho.texts key (by simp [hphase, DeskPhase.texts])
    have hkeeps := ho.retries.working roster rest
    refine ⟨roster, ?_, fun i a hl => ?_⟩
    · rcases hc.frame hkeeps with ⟨message, rfl⟩ | ⟨-, -, hroster, -⟩
      · exact .inl rfl
      · exact .inr hroster
    · obtain ⟨hr, hold⟩ := hm.registers (ho.work key work rest hphase) hreg
        (hc.windsDown.ages.live i a hl)
      exact ⟨hr, hold.imp_right fun he : a.key.text = key => he ▸ hmine⟩
  | settles closing closing' next hphase hc =>
    exact ⟨desk.roster, .inr rfl, hkeep (Closing.step_windsDown hc).ages⟩
  | finishes closing next hphase hc =>
    exact ⟨desk.roster, .inr rfl, hkeep (Closing.step_windsDown hc).ages⟩
  | _ => exact ⟨desk.roster, .inr rfl, hkeep (.refl site)⟩

end Moves

end Desk

end AddonWatch

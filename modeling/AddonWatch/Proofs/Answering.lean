import AddonWatch.Proofs.Serving

namespace AddonWatch

namespace Desk

/-- An alarm is set for that text. -/
def Awaits (desk : Desk) (text : String) : Prop :=
  ∃ id, (id, text) ∈ desk.alarms.entries

/-- The text is asked for in the inbox, or it is the next one to be reconciled. -/
def Asks (desk : Desk) (text : String) : Prop :=
  .sync text ∈ desk.inbox ∨ ∃ rest, desk.phase = .working (text :: rest)

/-- The reconciliation of the key that is under way serves the addon; without one the registered
watcher is in line with the addon, or an alarm is set. -/
def Answers (desk : Desk) (site : Site) (key : AddonKey) : Prop :=
  (∃ work rest, desk.phase = .reconciling key.text work rest ∧
    work.Serves site.hub desk.roster key) ∨
  (∀ work rest, desk.phase ≠ .reconciling key.text work rest) ∧
    (desk.Awaits key.text ∨ site.Agrees desk.roster key)

/-- The desk takes up work. -/
def IsOpen (desk : Desk) : Prop :=
  (∀ closing, desk.phase ≠ .closing closing) ∧ desk.phase ≠ .finished

theorem Concludes.awaits_of_ne {desk next : Desk} {key text : String} {site after : Site}
    {verdict : Verdict} (hk : desk.KeepsRetries) (hc : desk.Concludes key site verdict after next)
    (hne : text ≠ key) (hup : next.isDown = false) (h : desk.Awaits text) : next.Awaits text := by
  obtain ⟨id, hid⟩ := h
  cases hc with
  | forgets _ _ _ _ _ _ _ _ hf =>
    obtain ⟨alarms, rfl, ha⟩ := forget_eq hf
    rcases ha with ⟨rfl, -⟩ | ⟨retry, gone, hl, hr, ha⟩
    · exact ⟨id, hid⟩
    · refine ⟨id, ?_⟩
      rw [(Alarms.entries_remove? ha).2]
      refine List.mem_filter.mpr ⟨hid, ?_⟩
      have hgone : id ≠ gone := by
        rintro rfl
        exact hne (hk.key_unique hid (hk.alarmed key retry id hl hr))
      simpa using hgone
  | retries _ _ _ hr =>
    obtain ⟨new, alarms, rfl, hset⟩ := retryLater_eq hr
    rcases hset with ⟨retry, -, -, hs⟩ | ⟨-, hi⟩
    · exact ⟨id, (Alarms.reset?_perm hk.numbered hs).2.mem_iff.mpr hid⟩
    · exact ⟨id, (Alarms.insert?_perm hi).2.2.mem_iff.mpr (List.mem_cons_of_mem _ hid)⟩
  | _ => cases hup

/-- A failure that may go better the next time sets an alarm. -/
theorem Concludes.awaits_self {desk next : Desk} {key : String} {site after : Site} {fault : Fault}
    (hk : desk.KeepsRetries) (hc : desk.Concludes key site (.failed fault) after next)
    (hretry : fault.isRetryable = true) (hup : next.isDown = false) : next.Awaits key := by
  cases hc with
  | forgets _ _ _ _ _ hv =>
    have := hv fault rfl
    rw [hretry] at this
    cases this
  | retries _ _ _ hr =>
    obtain ⟨id, alarms, rfl, hset⟩ := retryLater_eq hr
    rcases hset with ⟨retry, hl, hra, hs⟩ | ⟨-, hi⟩
    · exact ⟨id, (Alarms.reset?_perm hk.numbered hs).2.mem_iff.mpr (hk.alarmed key retry id hl hra)⟩
    · exact ⟨id, (Alarms.insert?_perm hi).2.2.mem_iff.mpr (by simp)⟩
  | _ => cases hup

theorem Concludes.agrees {desk next : Desk} {key : String} {site after : Site} {verdict : Verdict}
    {k : AddonKey} (hc : desk.Concludes key site verdict after next) {roster : Roster}
    (h : site.Agrees roster k) : after.Agrees roster k := by
  have hw := hc.windsDown
  refine h.congr (hw.addon? _) rfl fun i a hl _ => ?_
  cases hc with
  | forgets _ _ _ _ _ _ _ hsite => rcases hsite with rfl | rfl <;> exact hl
  | loses _ _ _ _ hsite => rcases hsite with rfl | rfl <;> exact hl
  | _ => exact hl

namespace Moves

variable {desk desk' : Desk} {isSealed : Bool} {site site' : Site} {mine : String → Prop}
  {key : AddonKey}

/-- While the scope stands and work comes in, a desk stops no watcher but those of the key that it
is at. -/
theorem spares (h : desk.Moves isSealed site site' desk') (ho : desk.Orderly site mine)
    (hh : site.halted = false) (hs : isSealed = false) (hopen : desk.IsOpen)
    (hne : ∀ work rest, desk.phase ≠ .reconciling key.text work rest) :
    ∀ i a, site.Live i a → a.key = key → site'.Live i a := by
  have hother : ∀ {text work rest next roster result}, desk.phase = .reconciling text work rest →
      work.Moves site desk.roster next roster result → ∀ i a, site.Live i a → a.key = key →
        next.Live i a := fun hphase hm =>
    (hm.other (ho.work _ _ _ hphase) (fun e he => (ho.entries e he).2)
      fun he => hne _ _ (he ▸ hphase)).2
  cases h with
  | closes alarms hphase hend =>
    rcases hend with hend | hend
    · simp [hh] at hend
    · simp [hs] at hend
  | goesOn text work work' rest next roster hphase _ hm => exact hother hphase hm
  | concludes text work rest next after roster verdict _ hphase _ hm hc =>
    intro i a hl ha
    have hnext := hother hphase hm i a hl ha
    cases hc with
    | forgets _ _ _ _ _ _ _ hsite => rcases hsite with rfl | rfl <;> exact hnext
    | loses _ _ _ _ hsite => rcases hsite with rfl | rfl <;> exact hnext
    | _ => exact hnext
  | settles closing closing' next hphase => exact absurd hphase (hopen.1 closing)
  | finishes closing next hphase => exact absurd hphase (hopen.1 closing)
  | _ => exact fun i a hl _ => hl

theorem addon? (h : desk.Moves isSealed site site' desk') (object : ObjectName) :
    site'.hub.addon? object = site.hub.addon? object :=
  Hub.addon?_congr object h.addons

/-- A step that is not about the key keeps the answer, if it keeps what that rests on. -/
theorem answers_of_keeps (ha : desk.Asks key.text ∨ desk.Answers site key)
    (hbefore : ∀ work rest, desk.phase ≠ .reconciling key.text work rest)
    (hnext : ∀ rest, desk.phase ≠ .working (key.text :: rest))
    (hinbox : .sync key.text ∈ desk.inbox → desk'.Asks key.text)
    (hawaits : desk.Awaits key.text → desk'.Awaits key.text ∨ desk'.Asks key.text)
    (hagrees : site.Agrees desk.roster key → site'.Agrees desk'.roster key)
    (hafter : ∀ work rest, desk'.phase ≠ .reconciling key.text work rest) :
    desk'.Asks key.text ∨ desk'.Answers site' key := by
  rcases ha with (hin | ⟨rest, hphase⟩) | ⟨work, rest, hphase, -⟩ | ⟨-, hwait | hagree⟩
  · exact .inl (hinbox hin)
  · exact absurd hphase (hnext rest)
  · exact absurd hphase (hbefore work rest)
  · exact (hawaits hwait).symm.imp_right fun h => .inr ⟨hafter, .inl h⟩
  · exact .inr (.inr ⟨hafter, .inr (hagrees hagree)⟩)

theorem awaits_of_pop {alarms : Alarms} {found : Option Alarm} {text : String} {now : Nat}
    (hk : desk.KeepsRetries) (hp : desk.alarms.pop now = (found, alarms))
    (h : desk.Awaits text) :
    (∃ id, (id, text) ∈ alarms.entries) ∨ found.map Alarm.key = some text := by
  obtain ⟨id, hid⟩ := h
  rcases List.mem_append.mp ((Alarms.pop_perm hk.numbered hp).2.mem_iff.mp hid) with hf | hm
  · right
    cases found with
    | none => simp at hf
    | some alarm =>
      have he : (id, text) = alarm.entry := by simpa using hf
      exact congrArg some (Prod.mk.inj he).2.symm
  · exact .inl ⟨id, hm⟩

/-- A desk that is at the key has it in its inbox once more, or serves it. -/
theorem serves_of_at {work : Reconciling} {rest : List String}
    (ha : desk.Asks key.text ∨ desk.Answers site key)
    (hphase : desk.phase = .reconciling key.text work rest) :
    .sync key.text ∈ desk.inbox ∨ work.Serves site.hub desk.roster key := by
  rcases ha with (hin | ⟨_, hwork⟩) | ⟨_, _, hat, hserves⟩ | ⟨hnot, -⟩
  · exact .inl hin
  · simp [hphase] at hwork
  · cases hphase.symm.trans hat
    exact .inr hserves
  · exact absurd hphase (hnot work rest)

theorem answers_of_concludes {text : String} {work : Reconciling} {rest : List String}
    {next after : Site} {roster : Roster} {verdict : Verdict} (ho : desk.Orderly site mine)
    (hh : site.halted = false) (hk : key.IsWellFormed) (hup : desk'.isDown = false)
    (hcurrent : ∀ (handle : Handle) (reference : Reference), desk.roster.get? key = some handle →
      handle.isCurrent site reference.fingerprint = true →
        site.Live handle.child ⟨key, reference.fingerprint, reference.target⟩)
    (ha : desk.Asks key.text ∨ desk.Answers site key)
    (hphase : desk.phase = .reconciling text work rest)
    (hm : work.Moves site desk.roster next roster (.inr verdict))
    (hc : ({ desk with roster := roster, phase := .working rest } : Desk).Concludes text next
      verdict after desk') : desk'.Asks key.text ∨ desk'.Answers after key := by
  have hfit := ho.work text work rest hphase
  have hkeeps := ho.retries.working roster rest
  obtain ⟨-, hinbox, hroster, hphase', -⟩ := (hc.frame hkeeps).resolve_left (by
    rintro ⟨message, rfl⟩
    cases hup)
  have hafter : ∀ work rest, desk'.phase ≠ .reconciling key.text work rest := by simp [hphase']
  have hasks : .sync key.text ∈ desk.inbox → desk'.Asks key.text := fun hin =>
    .inl (hinbox ▸ hin)
  by_cases ht : text = key.text
  · subst ht
    rcases serves_of_at ha hphase with hin | hserves
    · exact .inl (hasks hin)
    · refine .inr (.inr ⟨hafter, ?_⟩)
      rcases hm.agrees hk hfit hh hserves hcurrent with
        ⟨-, hagree⟩ | ⟨fault, rfl, hretry⟩ | rfl
      · exact .inr (hroster ▸ hc.agrees hagree)
      · exact .inl (hc.awaits_self hkeeps hretry hup)
      · cases hc with
        | forgets _ _ _ _ _ _ hne => exact absurd rfl hne
        | _ => cases hup
  · obtain ⟨hr, hl⟩ := hm.other hfit (fun e he => (ho.entries e he).2) ht
    refine answers_of_keeps ha (by simp [hphase, ht]) (by simp [hphase]) hasks (fun hw => .inl ?_)
      (fun hagree => ?_) hafter
    · exact hc.awaits_of_ne hkeeps (Ne.symm ht) hup hw
    · exact hroster ▸ hc.agrees (hagree.congr (Hub.addon?_congr _ hm.addons) hr hl)

/-- A desk that asks for the key or answers for it goes on to do so, unless it breaks down. -/
theorem answers (h : desk.Moves isSealed site site' desk') (ho : desk.Orderly site mine)
    (hh : site.halted = false) (hs : isSealed = false) (hopen : desk.IsOpen)
    (hk : key.IsWellFormed) (hup : desk'.isDown = false)
    (hcurrent : ∀ (handle : Handle) (reference : Reference), desk.roster.get? key = some handle →
      handle.isCurrent site reference.fingerprint = true →
        site.Live handle.child ⟨key, reference.fingerprint, reference.target⟩)
    (ha : desk.Asks key.text ∨ desk.Answers site key) :
    desk'.Asks key.text ∨ desk'.Answers site' key := by
  cases h with
  | closes alarms hphase hend =>
    rcases hend with hend | hend
    · simp [hh] at hend
    · simp [hs] at hend
  | wakes alarm alarms hphase _ hp =>
    refine answers_of_keeps ha (by simp [hphase]) (by simp [hphase]) .inl (fun hw => ?_) id
      (by simp [wake])
    rcases awaits_of_pop ho.retries hp hw with hm | hf
    · exact .inl hm
    · exact .inr (.inr ⟨[], by simp [wake, Option.some.inj hf]⟩)
  | takes text rest alarms hphase _ hp hi =>
    refine answers_of_keeps ha (by simp [hphase]) (by simp [hphase]) (fun hin => ?_)
      (fun hw => (awaits_of_pop ho.retries hp hw).imp_right (by simp)) id (by simp)
    rw [hi] at hin
    rcases List.mem_cons.mp hin with he | hin
    · exact .inr ⟨[], by rw [Work.sync.inj he]⟩
    · exact .inl hin
  | looks rest alarms hphase _ hp hi =>
    refine answers_of_keeps ha (by simp [hphase]) (by simp [hphase]) (fun hin => ?_)
      (fun hw => (awaits_of_pop ho.retries hp hw).imp_right (by simp)) id (by simp)
    rw [hi] at hin
    exact .inl ((List.mem_cons.mp hin).resolve_left (by simp))
  | turns alarms hphase _ hp =>
    exact answers_of_keeps ha (by simp [hphase]) (by simp [hphase]) .inl
      (fun hw => (awaits_of_pop ho.retries hp hw).imp_right (by simp)) id (by simp [hphase])
  | rests hphase =>
    exact answers_of_keeps ha (by simp [hphase]) (by simp [hphase]) .inl .inl id (by simp)
  | begins text rest hphase =>
    by_cases ht : text = key.text
    · exact .inr (.inl ⟨.fresh text, rest, by rw [ht], trivial⟩)
    · have hnext : ∀ others, desk.phase ≠ .working (key.text :: others) := by simp [hphase, ht]
      exact answers_of_keeps ha (by simp [hphase]) hnext .inl .inl id (by simp [ht])
  | drops hhalted => simp [hh] at hhalted
  | goesOn text work work' rest next roster hphase _ hm =>
    have hfit := ho.work text work rest hphase
    by_cases ht : text = key.text
    · subst ht
      rcases serves_of_at ha hphase with hin | hserves
      · exact .inl (.inl hin)
      · exact .inr (.inl ⟨work', rest, rfl, hm.serves hk hfit hserves⟩)
    · obtain ⟨hr, hl⟩ := hm.other hfit (fun e he => (ho.entries e he).2) ht
      exact answers_of_keeps ha (by simp [hphase, ht]) (by simp [hphase]) .inl .inl
        (fun hagree => hagree.congr (Hub.addon?_congr _ hm.addons) hr hl) (by simp [ht])
  | concludes text work rest next after roster verdict _ hphase _ hm hc =>
    exact answers_of_concludes ho hh hk hup hcurrent ha hphase hm hc
  | settles closing closing' next hphase => exact absurd hphase (hopen.1 closing)
  | finishes closing next hphase => exact absurd hphase (hopen.1 closing)

end Moves

end Desk

end AddonWatch

import AddonWatch.Proofs.Registration

namespace AddonWatch

/-- Whatever comes of dealing with a call in this way is an answer of that kind. -/
def Act.Gives (p : Reply → Prop) : Act → Prop
  | .grant => p .granted
  | .refuse refusal => p (.refused refusal)
  | .hang => True
  | .crash => p .crashed
  | .delay _ next => next.Gives p

theorem Act.Gives.advance {p : Reply → Prop} {act : Act} (h : act.Gives p) (now due : Nat) :
    (∀ reply, act.advance now due = .inr reply → p reply) ∧
      ∀ call, act.advance now due = .inl call → call.act.Gives p := by
  induction act generalizing due with
  | delay ms next ih =>
    unfold Act.advance
    split
    · refine ⟨by simp, fun call he => ?_⟩
      cases he
      exact h
    · exact ih h (now + ms)
  | hang =>
    unfold Act.advance
    split <;> simp [Act.Gives]
  | _ =>
    unfold Act.advance
    split
    · refine ⟨by simp, fun call he => ?_⟩
      cases he
      exact h
    · exact ⟨by simpa [Act.Gives] using h, by simp⟩

def Script.Gives (p : Reply → Prop) (script : Script) : Prop :=
  (∀ act ∈ script.acts, act.Gives p) ∧ script.standard.Gives p

theorem Script.Gives.take {p : Reply → Prop} {script : Script} (h : script.Gives p) :
    script.take.1.Gives p ∧ script.take.2.Gives p := by
  obtain ⟨acts, standard⟩ := script
  cases acts with
  | nil => exact ⟨h.2, h⟩
  | cons act rest =>
    exact ⟨h.1 act List.mem_cons_self, fun other ho => h.1 other (List.mem_cons_of_mem _ ho), h.2⟩

/-- Dealing with a call in this way never brings the caller down. -/
def Act.IsCalm (act : Act) : Prop :=
  act.Gives (· ≠ .crashed)

def Script.IsCalm (script : Script) : Prop :=
  script.Gives (· ≠ .crashed)

/-- No subscription that is being opened brings the one who opens it down. -/
def Reconciling.IsCalm : Reconciling → Prop
  | .opening _ attempt => attempt.call.act.IsCalm
  | _ => True

theorem Reconciling.Moves.calm {site next : Site} {roster roster' : Roster} {work : Reconciling}
    {result : Reconciling ⊕ Verdict} (h : work.Moves site roster next roster' result)
    (hopens : site.hub.opens.IsCalm) (hwork : work.IsCalm) :
    next.hub.opens.IsCalm ∧ (∀ work', result = .inl work' → work'.IsCalm) ∧
      result ≠ .inr .crashed := by
  cases h with
  | asks text key addon reference =>
    refine ⟨hopens.take.2, fun work' he => ?_, by simp⟩
    cases he
    exact hopens.take.1
  | replaces =>
    refine ⟨hopens, fun work' he => ?_, by simp⟩
    cases he
    trivial
  | stops =>
    refine ⟨hopens, fun work' he => ?_, by simp⟩
    cases he
    trivial
  | stopped settling _ hs => exact ⟨hs.windsDown.hub.opens ▸ hopens, by simp, by simp⟩
  | replaced key addon reference settling after hs =>
    have hafter : after.hub.opens.IsCalm := hs.windsDown.hub.opens ▸ hopens
    refine ⟨hafter.take.2, fun work' he => ?_, by simp⟩
    cases he
    exact hafter.take.1
  | waits key attempt call hcall =>
    refine ⟨hopens, fun work' he => ?_, by simp⟩
    cases he
    exact (hwork.advance site.now attempt.call.due).2 call hcall
  | crashes key attempt hcall =>
    exact absurd rfl ((hwork.advance site.now attempt.call.due).1 _ hcall)
  | _ => exact ⟨hopens, by simp, by simp⟩

def Desk.IsCalm (desk : Desk) : Prop :=
  ∀ text work rest, desk.phase = .reconciling text work rest → work.IsCalm

/-- Should the key that the desk is at fail now, it is to be looked at again further ahead than an
alarm can be set. -/
def Desk.IsOverreaching (desk : Desk) (site : Site) : Prop :=
  ∃ key work rest, desk.phase = .reconciling key work rest ∧ desk.Overreaches key site

/-- While no call to open a subscription brings a desk down, one that breaks down has to set an
alarm that is due too far ahead. -/
theorem Desk.Moves.calm {desk desk' : Desk} {isSealed : Bool} {site site' : Site}
    {mine : String → Prop} (h : desk.Moves isSealed site site' desk')
    (ho : desk.Orderly site mine) (hopens : site.hub.opens.IsCalm) (hdesk : desk.IsCalm) :
    site'.hub.opens.IsCalm ∧ desk'.IsCalm ∧
      (desk'.isDown = true → desk.IsOverreaching site) := by
  cases h with
  | closes =>
    have hstart := Closing.start_windsDown desk.roster site.settings.cancelGrace site
    exact ⟨hstart.hub.opens ▸ hopens, fun _ _ _ he => by simp at he, by simp [isDown]⟩
  | begins key rest hphase =>
    refine ⟨hopens, fun _ _ _ he => ?_, by simp [isDown]⟩
    cases he
    trivial
  | turns alarms hphase => exact ⟨hopens, hdesk, by simp [isDown, hphase]⟩
  | goesOn key work work' rest next roster hphase hh hm =>
    obtain ⟨hnext, hwork, -⟩ := hm.calm hopens (hdesk key work rest hphase)
    refine ⟨hnext, fun _ _ _ he => ?_, by simp [isDown]⟩
    cases he
    exact hwork work' rfl
  | concludes key work rest next after roster verdict desk' hphase hh hm hc =>
    obtain ⟨hnext, -, hne⟩ := hm.calm hopens (hdesk key work rest hphase)
    have hkeeps := ho.retries.working roster rest
    refine ⟨hc.windsDown.hub.opens ▸ hnext, ?_, fun hcrashed => ?_⟩
    · rcases hc.frame hkeeps with ⟨message, rfl⟩ | ⟨-, -, -, hphase', -⟩
      · exact fun _ _ _ he => by simp [crash] at he
      · exact fun _ _ _ he => by simp [hphase'] at he
    · cases hc with
      | forgets _ _ _ _ _ _ _ _ hf =>
        obtain ⟨alarms, rfl, -⟩ := forget_eq hf
        cases hcrashed
      | retries fault _ _ hr =>
        obtain ⟨id, alarms, rfl, -⟩ := retryLater_eq hr
        cases hcrashed
      | overreaches fault text message hr =>
        have hover := hkeeps.overreaches hr
        have hsite : next = site := by cases hm <;> rfl
        exact ⟨key, work, rest, hphase, hsite ▸ hover⟩
      | loses _ _ _ _ _ hf => exact absurd hf (hkeeps.forget_ne_none key)
      | breaks => exact absurd rfl hne
  | settles closing closing' next hphase hc =>
    exact ⟨(Closing.step_windsDown hc).hub.opens ▸ hopens, fun _ _ _ he => by simp at he,
      by simp [isDown]⟩
  | finishes closing next hphase hc =>
    exact ⟨(Closing.step_windsDown hc).hub.opens ▸ hopens, fun _ _ _ he => by simp at he,
      by simp [isDown]⟩
  | _ => exact ⟨hopens, fun _ _ _ he => by simp [wake] at he, by simp [wake, isDown]⟩

theorem Follower.Moves.opens {f : Follower} {i : Nat} {site next : Site}
    {result : Follower ⊕ Ending} (h : f.Moves i site next result) :
    next.hub.opens = site.hub.opens := by
  cases h with
  | sights sighting hub hphase hr =>
    obtain ⟨_, rest, -, -, rfl⟩ := Hub.receive_signal hr
    rfl
  | misses fault hub text hphase hr =>
    obtain ⟨_, rest, -, -, rfl⟩ := Hub.receive_signal hr
    rfl
  | skips _ _ _ _ _ hnext => rcases hnext with rfl | ⟨text, rfl⟩ <;> rfl
  | _ => rfl

theorem Site.ChildMoves.opens {site next : Site} {i : Nat} {child : Child} {f : Follower}
    (h : site.ChildMoves i child f next) : next.hub.opens = site.hub.opens := by
  rcases h.hub with hsheds | ⟨after, result, -, hm, hsheds⟩
  · exact hsheds.opens
  · exact hsheds.opens.trans hm.opens

/-- Nothing around the supervision makes a call to open a subscription bring a desk down. -/
structure Surroundings.IsCalm (w : Surroundings) : Prop where
  admits : ∀ hub, w.admits hub → hub.opens.IsCalm
  allows : ∀ site hub, w.allows site hub → hub.opens.IsCalm

theorem Surroundings.IsCalm.both {v w : Surroundings} (h : w.IsCalm) : (v.both w).IsCalm where
  admits hub ha := h.admits hub ha.2
  allows site hub ha := h.allows site hub ha.2

namespace Supervision

structure IsCalm (s : Supervision) : Prop where
  opens : s.site.hub.opens.IsCalm
  desks : ∀ desk ∈ s.desks, desk.IsCalm

theorem LeadMoves.opens {s next : Supervision} (h : s.LeadMoves next) :
    next.site.hub.opens = s.site.hub.opens := by
  rcases h.hub with hsheds | hsheds | ⟨feed, streaming, tick, signal, hlead, hr⟩
  · exact hsheds.opens
  · exact hsheds.opens
  · obtain ⟨_, rest, -, -, he⟩ := Hub.receive_signal hr
    rw [he]

theorem LeadMoves.calm {s next : Supervision} (h : s.LeadMoves next)
    (hs : ∀ desk ∈ s.desks, desk.IsCalm) : ∀ desk ∈ next.desks, desk.IsCalm :=
  h.forall_desks (fun _ _ _ _ _ hp => by simp at hp) (fun _ _ hcalm => hcalm) hs

theorem Reached.calm {w : Surroundings} (hw : w.IsCalm) {s : Supervision} (h : s.Reached w) :
    s.IsCalm := by
  induction h using Reached.induct with
  | start s hf ha => exact ⟨hw.admits _ ha, fun desk hd => by simp [hf.desks] at hd⟩
  | child s site i child f hr hr' hc hrun hb hm ih => exact ⟨hm.opens ▸ ih.opens, ih.desks⟩
  | desk s site i desk desk' hr hr' hd hm ih =>
    obtain ⟨hopens, hcalm, -⟩ := hm.calm (hr.orderly.desks i desk hd) ih.opens
      (ih.desks desk (List.mem_of_getElem? hd))
    refine ⟨hopens, fun other ho => ?_⟩
    rcases List.mem_or_eq_of_mem_set ho with hold | rfl
    · exact ih.desks other hold
    · exact hcalm
  | lead s next hr hr' hm ih => exact ⟨hm.opens ▸ ih.opens, hm.calm ih.desks⟩
  | hub s hub hr hr' ha ih => exact ⟨hw.allows _ _ ha, ih.desks⟩
  | time s moment hr hr' ht ih => exact ⟨ih.opens, ih.desks⟩
  | halt s hr hr' ih => exact ⟨ih.opens, ih.desks⟩

/-- A desk that is down after a step was down before, or has just had to set an alarm too far
ahead. -/
theorem Reached.crashes {w : Surroundings} (hw : w.IsCalm) {s next : Supervision}
    (h : s.Reached w) (hm : s.Moves w next) {i : Nat} {desk' : Desk}
    (hd' : next.desks[i]? = some desk') (hcrashed : desk'.isDown = true) :
    ∃ desk, s.desks[i]? = some desk ∧ (desk.isDown = true ∨ desk.IsOverreaching s.site) := by
  cases hm with
  | task t _ hstep =>
    cases t with
    | child j =>
      obtain ⟨site, -, rfl⟩ := stepChild_cases hstep
      exact ⟨desk', hd', .inl hcrashed⟩
    | desk j =>
      obtain ⟨old, new, site, hold, hmoves, rfl⟩ := stepDesk_cases hstep
      rcases getElem?_set_desk hold hd' with ⟨rfl, rfl⟩ | ⟨-, hkept⟩
      · have hcalm := h.calm hw
        obtain ⟨-, -, hover⟩ := hmoves.calm (h.orderly.desks i old hold) hcalm.opens
          (hcalm.desks old (List.mem_of_getElem? hold))
        exact ⟨old, hold, .inr (hover hcrashed)⟩
      · exact ⟨desk', hkept, .inl hcrashed⟩
    | lead =>
      rcases (stepLead_moves hstep).desks with ⟨call, deadline, -, rfl⟩ | ⟨more, hs⟩
      · obtain ⟨hub, trace, lead, he, -⟩ := Orderly.begin_eq s
        rw [he] at hd'
        obtain rfl := List.eq_of_mem_replicate (List.mem_of_getElem? hd')
        cases hcrashed
      · rw [hs.desks] at hd'
        obtain ⟨old, hold, rfl⟩ := Option.map_eq_some_iff.mp hd'
        exact ⟨old, hold, .inl hcrashed⟩
  | _ => exact ⟨desk', hd', .inl hcrashed⟩

/-- That desk has broken down. While no call breaks down this is because it had to set an alarm
further ahead than alarms can be set, at some point of the run. -/
structure IsDown (w : Surroundings) (s : Supervision) (i : Nat) : Prop where
  crashed : ∃ desk, s.desks[i]? = some desk ∧ desk.isDown = true
  overreached : w.IsCalm → ∃ (mid : Supervision) (desk : Desk), mid.Reached w ∧ mid.Later w s ∧
    mid.desks[i]? = some desk ∧ desk.IsOverreaching mid.site

theorem Reached.isDown {w : Surroundings} {s : Supervision} (h : s.Reached w) {i : Nat}
    {desk : Desk} (hd : s.desks[i]? = some desk) (hcrashed : desk.isDown = true) :
    s.IsDown w i := by
  refine ⟨⟨desk, hd, hcrashed⟩, fun hw => ?_⟩
  induction h generalizing desk with
  | start s hf => simp [hf.desks] at hd
  | next s s' hr hm ih =>
    obtain ⟨old, hold, hdown | hover⟩ := hr.crashes hw hm hd hcrashed
    · obtain ⟨mid, earlier, hmid, hlater, he, hover⟩ := ih hold hdown
      exact ⟨mid, earlier, hmid, .next s s' hlater hm, he, hover⟩
    · exact ⟨s, old, hr, .next s s' .refl hm, hold, hover⟩

/-- A child that runs on is registered at the desk of its key, or that desk is down. -/
theorem Reached.registered {w : Surroundings} {s : Supervision} (h : s.Reached w) {i : Nat}
    {a : Assignment} (hl : s.site.Live i a) : s.IsDown w (s.partition a.key.text) ∨
      ∃ desk : Desk, s.desks[s.partition a.key.text]? = some desk ∧
        desk.roster.get? a.key = some ⟨a.fingerprint, i⟩ := by
  obtain ⟨desk, hd, hcrashed | hreg⟩ := h.orderly.registered i a hl
  · exact .inl (h.isDown hd hcrashed)
  · exact .inr ⟨desk, hd, hreg⟩

end Supervision

end AddonWatch

import AddonWatch.Proofs.Succession

namespace AddonWatch

/-- What is told of an addon comes in its place: that the watcher of an object was stopped, or is
replaced by one of another object, right after it was told that this watcher was started. -/
inductive Notice.Follows : Notice × String × Nat → List (Notice × String × Nat) → Prop
  | started (f : Fingerprint) (time : Nat) (earlier : List (Notice × String × Nat)) :
      Follows (.started, "watching " ++ f.text, time) earlier
  | stopped (f : Fingerprint) (time since : Nat) (earlier : List (Notice × String × Nat)) :
      Follows (.stopped, "stopped watching " ++ f.text, time)
        ((.started, "watching " ++ f.text, since) :: earlier)
  | changed (f f' : Fingerprint) (time since : Nat) (earlier : List (Notice × String × Nat))
      (hne : f ≠ f') :
      Follows (.changed, "config reference changed from " ++ f.text ++ " to " ++ f'.text, time)
        ((.started, "watching " ++ f.text, since) :: earlier)

/-- Every notice comes in its place; the latest is the first. -/
def Notice.InOrder (told : List (Notice × String × Nat)) : Prop :=
  ∀ later notice earlier, told = later ++ notice :: earlier → Notice.Follows notice earlier

theorem Notice.inOrder_nil : Notice.InOrder [] := by
  intro later notice earlier h
  simp at h

theorem Notice.InOrder.cons {told : List (Notice × String × Nat)} {notice : Notice × String × Nat}
    (h : Notice.InOrder told) (hf : Notice.Follows notice told) :
    Notice.InOrder (notice :: told) := by
  intro later other earlier he
  rcases List.cons_eq_append_iff.mp he with ⟨-, he⟩ | ⟨rest, -, he⟩
  · cases he
    exact hf
  · exact h rest other earlier he

namespace Site

variable {old new : Site} {key : AddonKey}

/-- How many watchers have ever been started for that key. -/
def builds (site : Site) (key : AddonKey) : Nat :=
  (List.range site.children.length).countP fun i => (site.assignment? i).any (·.key = key)

theorem builds_eq_zero (h : ∀ i a, old.assignment? i = some a → a.key ≠ key) :
    old.builds key = 0 := by
  refine List.countP_eq_zero.mpr fun i _ hi => ?_
  obtain ⟨a, ha, hk⟩ := (Option.any_eq_true ..).mp hi
  exact h i a ha (of_decide_eq_true hk)

theorem countP_of_grows (h : old.Grows new) :
    ((List.range old.children.length).countP fun i => (new.assignment? i).any (·.key = key)) =
      old.builds key := by
  refine List.countP_congr fun i hi => ?_
  rw [h.assignment i (List.mem_range.mp hi)]

/-- As long as children go on, the count changes only with a new one for the key. -/
theorem Grows.builds (h : old.Grows new)
    (hn : ∀ i a, old.children.length ≤ i → new.assignment? i = some a → a.key ≠ key) :
    new.builds key = old.builds key := by
  obtain ⟨more, hlen⟩ := Nat.exists_eq_add_of_le h.length
  have hnone : ((List.range more).map (old.children.length + ·)).countP
      (fun i => (new.assignment? i).any (·.key = key)) = 0 := by
    refine List.countP_eq_zero.mpr fun i hi hany => ?_
    obtain ⟨j, -, rfl⟩ := List.mem_map.mp hi
    obtain ⟨a, ha, hk⟩ := (Option.any_eq_true ..).mp hany
    exact hn _ a (Nat.le_add_right _ _) ha (of_decide_eq_true hk)
  rw [Site.builds, hlen, List.range_add, List.countP_append, hnone, countP_of_grows h,
    Nat.add_zero]

theorem Ages.builds (h : old.Ages new) : new.builds key = old.builds key := by
  refine h.grows.builds fun i a hi ha => ?_
  have hlt := lt_length_of_assignment? ha
  have hlen := h.length
  omega

theorem notices_note_self (site : Site) (notice : Notice) (key : AddonKey) (text : String) :
    (site.note notice key text).notices key = (notice, text, site.now) :: site.notices key := by
  simp [notices, note, mark]

theorem notices_note_of_ne (site : Site) (notice : Notice) {key other : AddonKey} (text : String)
    (h : other ≠ key) : (site.note notice key text).notices other = site.notices other := by
  simp [notices, note, mark, h.symm]

end Site

theorem Opening.builds_begin (o : Opening) (site : Site) (key : AddonKey) :
    (o.begin site).1.builds key =
      site.builds key + if o.assignment.key = key then 1 else 0 := by
  rw [Site.builds, o.length_begin, List.range_succ, List.countP_append,
    Site.countP_of_grows (o.grows_begin site), List.countP_singleton, o.assignment?_begin]
  simp

/-- What a poll tells of one key, together with what it does to the registry and which watchers it
starts there: nothing; or that the registered watcher is stopped, or is replaced by one on another
object, which takes it out; or that the watcher was started that is registered now. -/
inductive Reconciling.Tells (site next : Site) (roster roster' : Roster) (key : AddonKey) : Prop
  | nothing (hn : next.notices key = site.notices key) (hb : next.builds key = site.builds key)
      (hg : roster'.get? key = none ∨ roster'.get? key = roster.get? key)
  | stopped (handle : Handle) (hg : roster.get? key = some handle)
      (hn : next.notices key =
        (.stopped, "stopped watching " ++ handle.fingerprint.text, site.now) :: site.notices key)
      (hb : next.builds key = site.builds key) (hgone : roster'.get? key = none)
  | changed (handle : Handle) (f' : Fingerprint) (hg : roster.get? key = some handle)
      (hne : handle.fingerprint ≠ f')
      (hn : next.notices key = (.changed, "config reference changed from " ++
        handle.fingerprint.text ++ " to " ++ f'.text, site.now) :: site.notices key)
      (hb : next.builds key = site.builds key) (hgone : roster'.get? key = none)
  | started (handle : Handle)
      (hn : next.notices key =
        (.started, "watching " ++ handle.fingerprint.text, site.now) :: site.notices key)
      (hb : next.builds key = site.builds key + 1) (hg : roster'.get? key = some handle)

/-- While a child is waited for nothing is told. -/
theorem Settling.Moves.notices {s : Settling} {site next : Site} {key : AddonKey}
    (h : s.Moves site next) : next.notices key = site.notices key := by
  have hleaves : site.Leaves (fun _ => False) next := h.leaves
  exact Site.notices_of_leaves hleaves fun _ _ _ => id

namespace Reconciling

variable {site next : Site} {roster roster' : Roster} {work : Reconciling} {text : String}
  {result : Reconciling ⊕ Verdict} {key own : AddonKey}

/-- Where children only wind down and nothing is told, it is the registry alone that changes. -/
theorem Tells.of_windsDown (hw : site.WindsDown next) (hn : next.notices key = site.notices key)
    (hg : roster'.get? key = none ∨ roster'.get? key = roster.get? key) :
    Tells site next roster roster' key :=
  .nothing hn hw.ages.builds hg

/-- A key that is taken out is the only one that changes. -/
theorem get?_erase_cases (roster : Roster) (own key : AddonKey) :
    (roster.erase own).get? key = none ∨ (roster.erase own).get? key = roster.get? key := by
  by_cases hk : key = own
  · exact .inl (hk ▸ roster.get?_erase_self own)
  · exact .inr (roster.get?_erase_of_ne hk)

theorem tells_of_stop (h : stop own roster site = (next, roster', result)) (key : AddonKey) :
    Tells site next roster roster' key := by
  cases hg : roster.get? own with
  | none =>
    simp only [stop, Roster.remove, hg] at h
    cases h
    exact .nothing rfl rfl (get?_erase_cases roster own key)
  | some handle =>
    simp only [stop, Roster.remove, hg] at h
    cases h
    have hw := fun line note => Site.WindsDown.announced site line .stopped own note handle.child
    by_cases hk : key = own
    · subst hk
      exact .stopped handle hg (Site.notices_note_self _ _ _ _) (hw _ _).ages.builds
        (roster.get?_erase_self key)
    · exact .of_windsDown (hw _ _) (Site.notices_note_of_ne _ _ _ hk)
        (get?_erase_cases roster own key)

theorem tells_of_openFor {after : Site} {addon : Addon} {reference : Reference}
    (h : openFor own addon reference roster after = (next, roster', result))
    (hw : site.WindsDown after) (hn : after.notices key = site.notices key)
    {former : Roster} (hg : roster.get? key = none ∨ roster.get? key = former.get? key) :
    Tells site next former roster' key := by
  cases h
  have hages := hw.ages.trans (Opening.start_ages addon.key reference after)
  exact .nothing hn hages.builds hg

theorem tells_of_replace {addon : Addon} {reference : Reference}
    (h : replace own addon reference roster site = (next, roster', result)) (key : AddonKey) :
    Tells site next roster roster' key := by
  cases hg : roster.get? own with
  | none =>
    simp only [replace, Roster.remove, hg] at h
    exact tells_of_openFor h (.refl site) rfl (get?_erase_cases roster own key)
  | some handle =>
    simp only [replace, Roster.remove, hg, announceReplacement] at h
    split at h
    next =>
      cases h
      exact .of_windsDown ((Site.WindsDown.log _ _ _).trans (.fire _ _)) rfl
        (get?_erase_cases roster own key)
    next hne =>
      cases h
      have hw := fun line note => Site.WindsDown.announced site line .changed own note handle.child
      by_cases hk : key = own
      · subst hk
        exact .changed handle reference.fingerprint hg hne (Site.notices_note_self _ _ _ _)
          (hw _ _).ages.builds (roster.get?_erase_self key)
      · exact .of_windsDown (hw _ _) (Site.notices_note_of_ne _ _ _ hk)
          (get?_erase_cases roster own key)

theorem tells_of_start (h : start text roster site = (next, roster', result)) (key : AddonKey) :
    Tells site next roster roster' key := by
  unfold start at h
  split at h
  next =>
    cases h
    exact .nothing rfl rfl (.inr rfl)
  next =>
    split at h
    next => exact tells_of_stop h key
    next =>
      cases h
      exact .nothing rfl rfl (.inr rfl)
    next => exact tells_of_replace h key

/-- The watcher that has been asked for is started, told of and registered in one poll. -/
theorem tells_of_register {attempt : Opening}
    (h : register own (attempt.begin site).2 roster (attempt.begin site).1 =
      (next, roster', result))
    (hown : attempt.assignment.key = own) (key : AddonKey) :
    Tells site next roster roster' key := by
  cases h
  have hw : ∀ line note, (attempt.begin site).1.WindsDown
      (((attempt.begin site).1.log .info line).note .started own note) := fun _ _ =>
    (Site.WindsDown.log _ _ _).trans (.note _ _ _ _)
  have hbuilds : ∀ line note,
      (((attempt.begin site).1.log .info line).note .started own note).builds key =
        site.builds key + if attempt.assignment.key = key then 1 else 0 := fun line note =>
    (hw line note).ages.builds.trans (attempt.builds_begin site key)
  by_cases hk : key = own
  · subst hk
    simp only [if_pos hown] at hbuilds
    exact .started _ (Site.notices_note_self _ _ _ _) (hbuilds _ _) (roster.get?_insert_self key _)
  · simp only [if_neg (hown.trans_ne (Ne.symm hk))] at hbuilds
    exact .nothing (Site.notices_note_of_ne _ _ _ hk) (hbuilds _ _)
      (.inr (roster.get?_insert_of_ne _ hk))

theorem tells_of_step (h : work.step roster site = some (next, roster', result))
    (hfit : work.Fits site roster text) (key : AddonKey) :
    Tells site next roster roster' key := by
  cases work with
  | fresh other => exact tells_of_start (Option.some.inj h) key
  | stopping settling =>
    obtain ⟨⟨after, inTime⟩, hstep, h⟩ := Option.map_eq_some_iff.mp h
    cases h
    have hs := Settling.step_moves hstep
    exact .of_windsDown hs.windsDown hs.notices (.inr rfl)
  | replacing own addon reference settling =>
    obtain ⟨⟨after, inTime⟩, hstep, h⟩ := Option.map_eq_some_iff.mp h
    have hs := Settling.step_moves hstep
    exact tells_of_openFor h hs.windsDown hs.notices (.inr rfl)
  | opening own attempt =>
    cases moves_of_opening h with
    | builds _ _ line note hcall =>
      simp only [step, Opening.step, hcall, Option.map_some, Option.some.injEq] at h
      exact tells_of_register h hfit.2.2.2 key
    | _ => exact .nothing rfl rfl (.inr rfl)

end Reconciling

namespace Session

variable {mine : String → Prop} {s next : Session}

/-- What has been told for the keys of the registry, together with what is registered and what has
been started: every notice is in its place, what is registered was the last to be told of, and a
start is told of as often as a watcher was started. -/
structure Told (mine : String → Prop) (s : Session) : Prop where
  order : ∀ key : AddonKey, mine key.text → Notice.InOrder (s.site.notices key)
  registered : ∀ key handle, s.roster.get? key = some handle → ∃ time earlier,
    s.site.notices key = (.started, "watching " ++ handle.fingerprint.text, time) :: earlier
  builds : ∀ key : AddonKey, mine key.text →
    (s.site.notices key).countP (fun notice => notice.1 = .started) = s.site.builds key

namespace Told

theorem others {site : Site} (h : s.Told mine) (ho : s.Orderly mine)
    (ha : s.site.Apart mine site) : Told mine { s with site := site } where
  order key hm := by
    rw [ha.notices key hm]
    exact h.order key hm
  registered key handle hg := by
    have hm := (ho.entries _ (Roster.mem_of_get? hg)).1
    rw [ha.notices key hm]
    exact h.registered key handle hg
  builds key hm := by
    rw [ha.notices key hm, ha.grows.builds fun i a hi hassign hk =>
      ha.newcomers i a hi hassign (hk ▸ hm)]
    exact h.builds key hm

theorem polls {text : String} {work : Reconciling} {site : Site} {roster : Roster}
    {result : Reconciling ⊕ Verdict} (h : s.Told mine) (ho : s.Orderly mine)
    (hc : s.call = some (text, work))
    (hstep : work.step s.roster s.site = some (site, roster, result)) :
    Told mine { s with site := site, roster := roster, call := under text result } := by
  have htells := Reconciling.tells_of_step hstep (ho.work text work hc).2
  refine ⟨fun key hm => ?_, fun key handle hg => ?_, fun key hm => ?_⟩
  · have hold := h.order key hm
    cases htells key with
    | nothing hn =>
      rw [hn]
      exact hold
    | stopped handle hg hn =>
      obtain ⟨since, earlier, hlast⟩ := h.registered key handle hg
      rw [hn]
      refine hold.cons ?_
      rw [hlast]
      exact .stopped _ _ _ _
    | changed handle f' hg hne hn =>
      obtain ⟨since, earlier, hlast⟩ := h.registered key handle hg
      rw [hn]
      refine hold.cons ?_
      rw [hlast]
      exact .changed _ _ _ _ _ hne
    | started handle hn =>
      rw [hn]
      exact hold.cons (.started _ _ _)
  · cases htells key with
    | nothing hn _ hkept =>
      rw [hn]
      rcases hkept with hnone | hsame
      · rw [hnone] at hg
        cases hg
      · exact h.registered key handle (hsame ▸ hg)
    | stopped _ _ _ _ hgone =>
      rw [hgone] at hg
      cases hg
    | changed _ _ _ _ _ _ hgone =>
      rw [hgone] at hg
      cases hg
    | started built hn _ hnew =>
      obtain rfl : built = handle := Option.some.inj (hnew.symm.trans hg)
      exact ⟨_, _, hn⟩
  · have hold := h.builds key hm
    cases htells key with
    | nothing hn hb => rw [hn, hb, hold]
    | stopped _ _ hn hb =>
      rw [hn, hb, List.countP_cons_of_neg (by simp)]
      exact hold
    | changed _ _ _ _ hn hb =>
      rw [hn, hb, List.countP_cons_of_neg (by simp)]
      exact hold
    | started _ hn hb => rw [hn, hb, List.countP_cons_of_pos (by simp), hold]

theorem turns (h : s.Told mine) (ho : s.Orderly mine) (ht : s.Turns mine next) :
    next.Told mine := by
  cases ht with
  | polls text work site roster result hc hstep => exact h.polls ho hc hstep
  | others site ha => exact h.others ho ha
  | givesUp => exact ⟨h.order, by simp [Roster.get?], h.builds⟩
  | _ => exact ⟨h.order, h.registered, h.builds⟩

end Told

theorem Reached.told (h : s.Reached mine) : s.Told mine := by
  induction h with
  | start site hchildren hnotices =>
    refine ⟨fun key hm => ?_, by simp [Roster.get?], fun key hm => ?_⟩
    · rw [hnotices key hm]
      exact Notice.inOrder_nil
    · rw [hnotices key hm, Site.builds_eq_zero fun i a ha hk => hchildren i a ha (hk ▸ hm)]
      rfl
  | next s s' hr ht ih => exact ih.turns hr.orderly ht

/-- In whatever calls, of which any may fail or be dropped: while a watcher is registered, the
latest that was told of its key is that it was started on its object; that a watcher was stopped, or
is replaced by one on another object, is told right after it was told that this watcher was started;
and it is told that one was started as often as one was. -/
theorem notices_follow_lifecycle (h : s.Reached mine) :
    (∀ key handle, s.roster.get? key = some handle → ∃ time earlier,
      s.site.notices key = (.started, "watching " ++ handle.fingerprint.text, time) :: earlier) ∧
    ∀ key : AddonKey, mine key.text →
      (∀ later earlier note time,
        s.site.notices key = later ++ (.stopped, note, time) :: earlier → ∃ f since before,
          note = "stopped watching " ++ Fingerprint.text f ∧
          earlier = (.started, "watching " ++ f.text, since) :: before) ∧
      (∀ later earlier note time,
        s.site.notices key = later ++ (.changed, note, time) :: earlier → ∃ f f' since before,
          note = "config reference changed from " ++ Fingerprint.text f ++ " to " ++
            Fingerprint.text f' ∧ f ≠ f' ∧
          earlier = (.started, "watching " ++ f.text, since) :: before) ∧
      (s.site.notices key).countP (fun notice => notice.1 = .started) = s.site.builds key := by
  have htold := h.told
  refine ⟨htold.registered, fun key hm => ⟨fun later earlier note time he => ?_,
    fun later earlier note time he => ?_, htold.builds key hm⟩⟩
  · cases htold.order key hm later _ earlier he with
    | stopped f _ since before => exact ⟨f, since, before, rfl, rfl⟩
  · cases htold.order key hm later _ earlier he with
    | changed f f' _ since before hne => exact ⟨f, f', since, before, rfl, hne, rfl⟩

end Session

namespace Supervision

variable {w : Surroundings} {s : Supervision}

/-- All that is told in a run of a supervision follows the watchers of its addons in the same
way. -/
theorem Reached.told (h : s.Reached w) :
    (∀ desk ∈ s.desks, ∀ key handle, desk.roster.get? key = some handle → ∃ time earlier,
      s.site.notices key = (.started, "watching " ++ handle.fingerprint.text, time) :: earlier) ∧
    ∀ key, Notice.InOrder (s.site.notices key) ∧
      (s.site.notices key).countP (fun notice => notice.1 = .started) = s.site.builds key := by
  constructor
  · intro desk hd key handle hg
    obtain ⟨j, hj⟩ := List.mem_iff_getElem?.mp hd
    obtain ⟨forsaken, hcalls, -⟩ := h.attends hj
    exact hcalls.told.registered key handle hg
  · intro key
    cases hdesk : s.desks[s.partition key.text]? with
    | none =>
      have hle := List.getElem?_eq_none_iff.mp hdesk
      have hnone : s.desks = [] := by
        by_contra hne
        exact absurd (Nat.mod_lt _ (List.length_pos_iff.mpr hne)) (Nat.not_lt.mpr hle)
      obtain ⟨hchildren, htold⟩ := h.untold hnone
      rw [htold key]
      exact ⟨Notice.inOrder_nil, by simp [Site.builds, hchildren]⟩
    | some desk =>
      obtain ⟨forsaken, hcalls, -⟩ := h.attends hdesk
      exact ⟨hcalls.told.order key rfl, hcalls.told.builds key rfl⟩

end Supervision

/-- The addon of a live watcher is pointed at another object. -/
theorem Session.notices_follow_lifecycle_first : ∃ (mine : String → Prop) (c : Session)
    (key : AddonKey) (handle : Handle), c.Reached mine ∧ mine key.text ∧
      c.roster.get? key = some handle ∧
      (c.site.notices key).map Prod.fst = [.started, .changed, .started] ∧
      (∃ time earlier, c.site.notices key =
        (.started, "watching " ++ handle.fingerprint.text, time) :: earlier) ∧
      c.site.builds key = 2 := by
  have hstart : Supervision.obliging.Reached .any :=
    .start _ ⟨rfl, rfl, rfl, rfl, rfl, rfl⟩ trivial
  obtain ⟨mid, hmid, hp⟩ := Supervision.exists_of_play
    (List.replicate 3 .lead ++ List.replicate 4 (.desk 0)) hstart
    (p := fun mid => (mid.repointed.play ([.desk 0, .lead] ++ List.replicate 3 (.desk 0) ++
      [.child 0, .desk 0, .desk 0])).any fun s =>
        (s.site.notices ⟨"ns", "a"⟩).map Prod.fst = [.started, .changed, .started] &&
        s.partition "ns/a" = 0 &&
        s.desks[0]?.any fun desk => (desk.roster.get? ⟨"ns", "a"⟩).isSome)
    (by decide +kernel)
  obtain ⟨s, hplay, hp⟩ := (Option.any_eq_true ..).mp hp
  simp only [Bool.and_eq_true, Option.any_eq_true, decide_eq_true_eq,
    Option.isSome_iff_exists] at hp
  obtain ⟨⟨htold, hpartition⟩, desk, hd, handle, hg⟩ := hp
  have hs : s.Reached .any := (hmid.next _ _ (.hub _ trivial)).play hplay
  obtain ⟨forsaken, hcalls, -⟩ := hs.attends hd
  obtain ⟨hregistered, hkey⟩ := notices_follow_lifecycle hcalls
  have hbuilds := (hkey ⟨"ns", "a"⟩ hpartition).2.2
  have hstarts : (s.site.notices ⟨"ns", "a"⟩).countP (fun notice => notice.1 = .started) =
      ((s.site.notices ⟨"ns", "a"⟩).map Prod.fst).countP (· = .started) := by
    rw [List.countP_map]
    rfl
  refine ⟨_, _, ⟨"ns", "a"⟩, handle, hcalls, hpartition, hg, htold, hregistered _ handle hg, ?_⟩
  rw [← hbuilds, hstarts, htold]
  rfl

end AddonWatch

import AddonWatch.Proofs.Breakdown

namespace AddonWatch

/-- The desk is at a reconciliation of that key. -/
def Desk.IsAt (desk : Desk) (key : AddonKey) : Prop :=
  ∃ text work rest, desk.phase = .reconciling text work rest ∧ AddonKey.parse text = .ok key

/-- Nobody that the supervision calls breaks down. -/
def Hub.IsCalm (hub : Hub) : Prop :=
  hub.addonsOpen.IsCalm ∧ hub.opens.IsCalm ∧ hub.writes.IsCalm ∧ hub.faultyReads = 0

/-- All that is known of these surroundings is that no call breaks down. -/
def Surroundings.calm : Surroundings where
  admits := Hub.IsCalm
  allows _ := Hub.IsCalm

theorem Surroundings.isCalm_calm : Surroundings.calm.IsCalm :=
  ⟨fun _ h => h.2.1, fun _ _ h => h.2.1⟩

namespace Supervision

variable {w : Surroundings} {s : Supervision}

/-- A desk that is at a key is the desk of that key. -/
theorem Orderly.partition_of_isAt (h : s.Orderly) {key : AddonKey} {i : Nat} {desk : Desk}
    (hd : s.desks[i]? = some desk) (hat : desk.IsAt key) : s.partition key.text = i := by
  obtain ⟨text, work, rest, hphase, hp⟩ := hat
  obtain ⟨rfl, -⟩ := AddonKey.parse_eq_ok_iff.mp hp
  exact (h.desks i desk hd).texts _ (by simp [hphase, DeskPhase.texts])

theorem Orderly.at_unique (h : s.Orderly) {key : AddonKey} {i j : Nat} {di dj : Desk}
    (hi : s.desks[i]? = some di) (hj : s.desks[j]? = some dj) (hki : di.IsAt key)
    (hkj : dj.IsAt key) : i = j :=
  (h.partition_of_isAt hi hki).symm.trans (h.partition_of_isAt hj hkj)

/-- A child is registered at no other desk and for no other key than its own. -/
theorem Orderly.entry_unique (h : s.Orderly) {i j : Nat} {a : Assignment} {desk : Desk}
    {e : AddonKey × Handle} (ha : s.site.assignment? i = some a) (hd : s.desks[j]? = some desk)
    (he : e ∈ desk.roster.entries) (hi : e.2.child = i) :
    j = s.partition a.key.text ∧ e = (a.key, ⟨a.fingerprint, i⟩) := by
  obtain ⟨hmine, b, hb, hkey, hfingerprint⟩ := (h.desks j desk hd).entries e he
  rw [hi, ha] at hb
  cases hb
  obtain ⟨key, fingerprint, child⟩ := e
  subst hi hkey hfingerprint
  exact ⟨hmine.symm, rfl⟩

/-- At most one reconciliation of a key is under way. A child that runs on is registered for its own
key alone, at the desk that the key belongs to, unless that desk is down; and no other child runs on
for its key. -/
theorem one_watcher_per_addon (h : s.Reached w) :
    (∀ (key : AddonKey) (i j : Nat) (di dj : Desk), s.desks[i]? = some di →
      s.desks[j]? = some dj → di.IsAt key → dj.IsAt key → i = j) ∧
    ∀ (i : Nat) (child : Child), s.site.children[i]? = some child →
      s.site.isCancelled child = false → child.isFinished = false →
      ∃ a, child.assignment? = some a ∧
        (s.IsDown w (s.partition a.key.text) ∨
          ∃ desk : Desk, s.desks[s.partition a.key.text]? = some desk ∧
            desk.roster.get? a.key = some ⟨a.fingerprint, i⟩) ∧
        (∀ (j : Nat) (other : Desk) (e : AddonKey × Handle), s.desks[j]? = some other →
          e ∈ other.roster.entries → e.2.child = i →
            j = s.partition a.key.text ∧ e = (a.key, ⟨a.fingerprint, i⟩)) ∧
        ∀ j b, s.site.Live j b → b.key = a.key → j = i := by
  have ho := h.orderly
  refine ⟨fun key i j di dj hi hj => ho.at_unique hi hj, fun i child hc hn hrun => ?_⟩
  obtain ⟨f, hb⟩ := ho.staffed.guarded hc
  have ha : child.assignment? = some f.assignment := by simp [Child.assignment?, hb]
  have hlive : s.site.Live i f.assignment := .of_running hc ha hn hrun
  refine ⟨f.assignment, ha, h.registered hlive, fun j other e hd he hi => ?_,
    fun j b hj hk => ho.single j i b _ hj hlive hk⟩
  exact ho.entry_unique hlive.assignment? hd he hi

/-- An addon of the namespace that its configuration object has too. -/
def specimen (name config : String) : Addon where
  metadata := { name := some name, ns := some "ns" }
  status := some ⟨some {
    group := "cfg.test", version := "v1", resource := "tests", ns := "ns", name := config }⟩

/-- One desk for two addons; the subscription for the second one is refused, and retries come
further apart than alarms can be set. -/
def overreaching : Supervision where
  site := {
    settings := {
      workers := 1
      retry := ⟨Span.ofMillis 68719476736, Span.ofMillis 68719476736⟩ }
    hub := {
      addons := [specimen "a" "x", specimen "b" "y"]
      configs := [⟨"cfg.test", "v1", "tests", ⟨some "ns", "x"⟩, Generation.ofInt? 1⟩]
      opens := ⟨[.grant, .refuse .unserved], .grant⟩ } }
  names := ["a", "b"]
  lead := .fresh

/-- The addon stream is opened, both addons are seen, and the desk takes so many steps. -/
def opening (steps : Nat) : List Task :=
  List.replicate 4 .lead ++ List.replicate steps (.desk 0)

theorem overreaching_calm : overreaching.site.hub.IsCalm := by
  simp [Hub.IsCalm, Script.IsCalm, Script.Gives, Act.IsCalm, Act.Gives, overreaching]

theorem overreaching_reached : overreaching.Reached .calm :=
  .start _ ⟨rfl, rfl, rfl, rfl, rfl, rfl⟩ overreaching_calm

/-- Only the first addon is recognised. -/
def sparing : Supervision :=
  { overreaching with names := ["a"] }

theorem sparing_reached : sparing.Reached .calm :=
  .start _ ⟨rfl, rfl, rfl, rfl, rfl, rfl⟩ overreaching_calm

/-- All streams of all addons are open, and whoever is called goes on to answer. -/
def isOpen (s : Supervision) : Bool :=
  s.site.hub.feeds.all (fun f => f.topic.isSome || !f.closed) &&
    s.site.hub.addonsOpen = .grant && s.site.hub.opens = ⟨[.refuse .unserved], .grant⟩ &&
    s.site.hub.writes = {} && s.site.hub.faultyReads = 0

theorem calm_of_isOpen (h : s.isOpen = true) : s.site.hub.IsCalm := by
  simp only [isOpen, Bool.and_eq_true, decide_eq_true_eq] at h
  obtain ⟨⟨⟨⟨-, haddons⟩, hopens⟩, hwrites⟩, hreads⟩ := h
  simp [Hub.IsCalm, Script.IsCalm, Script.Gives, Act.IsCalm, Act.Gives, haddons, hopens, hwrites,
    hreads]

theorem exists_of_play {w : Surroundings} {start : Supervision} (tasks : List Task)
    {p : Supervision → Bool} (h : start.Reached w) (hp : (start.play tasks).any p = true) :
    ∃ s : Supervision, s.Reached w ∧ p s = true := by
  obtain ⟨s, hs, hp⟩ := (Option.any_eq_true ..).mp hp
  exact ⟨s, h.play hs, hp⟩

theorem not_down_of_up {s : Supervision}
    (h : (s.desks.all fun desk => !desk.isOver) = true) : ∀ desk ∈ s.desks,
      ¬desk.isDown = true := by
  intro desk hd hdown
  have hup := List.all_eq_true.mp h desk hd
  rw [Desk.isOver_of_isDown hdown] at hup
  cases hup

theorem not_isDown {w : Surroundings} {s : Supervision}
    (h : (s.desks.all fun desk => !desk.isOver) = true) (i : Nat) : ¬s.IsDown w i := by
  rintro ⟨⟨desk, hd, hcrashed⟩, -⟩
  exact not_down_of_up h desk (List.mem_of_getElem? hd) hcrashed

/-- The desk is down, as far as it can be computed. -/
def isDown (s : Supervision) (i : Nat) : Bool :=
  s.desks[i]?.any Desk.isDown

theorem isDown_of_computed {w : Surroundings} {s : Supervision} {i : Nat} (h : s.Reached w)
    (hdown : s.isDown i = true) : s.IsDown w i := by
  obtain ⟨desk, hd, hp⟩ := (Option.any_eq_true ..).mp hdown
  exact h.isDown hd hp

/-- The child runs on for that assignment, as far as it can be computed. -/
def runsFor (s : Supervision) (i : Nat) (a : Assignment) : Bool :=
  s.site.children[i]?.any fun child =>
    !s.site.isCancelled child && !child.isFinished && child.assignment? = some a

theorem live_of_runsFor {i : Nat} {a : Assignment} (h : s.runsFor i a = true) :
    s.site.Live i a := by
  obtain ⟨child, hc, h⟩ := (Option.any_eq_true ..).mp h
  simp only [Bool.and_eq_true, Bool.not_eq_true', decide_eq_true_eq] at h
  obtain ⟨⟨hn, hr⟩, ha⟩ := h
  exact .of_running hc ha hn hr

/-- What the watcher of the first addon is started for. -/
def firstAssignment : Assignment :=
  ⟨⟨"ns", "a"⟩, ⟨"cfg.test/v1/tests/ns/x"⟩, ⟨"cfg.test", "v1", "tests", some "ns", "x"⟩⟩

theorem one_watcher_per_addon_first : ∃ s : Supervision, s.Reached .calm ∧
    s.site.Live 0 firstAssignment ∧ ∃ desk ∈ s.desks,
      desk.roster.get? ⟨"ns", "a"⟩ = some ⟨firstAssignment.fingerprint, 0⟩ := by
  obtain ⟨s, hs, hp⟩ := exists_of_play (opening 4) overreaching_reached
    (p := fun s => s.runsFor 0 firstAssignment && s.desks.all fun desk => !desk.isOver)
    (by decide +kernel)
  obtain ⟨hrun, hup⟩ := (Bool.and_eq_true ..).mp hp
  have hlive := live_of_runsFor hrun
  obtain ⟨-, child, hc, ha, -⟩ := id hlive
  obtain ⟨-, hn, hr⟩ := hlive.running hc
  obtain ⟨b, hb, hreg, -⟩ := (one_watcher_per_addon hs).2 0 child hc hn hr
  obtain rfl : firstAssignment = b := Option.some.inj (ha.symm.trans hb)
  obtain ⟨desk, hd, hreg⟩ := hreg.resolve_left (not_isDown hup _)
  exact ⟨s, hs, hlive, desk, List.mem_of_getElem? hd, hreg⟩

/-- The watcher of the first addon runs on, although nobody that is called has broken down and the
desk that it belongs to has no watcher registered: it had to set an alarm too far ahead. -/
theorem stray_watcher : ∃ s mid : Supervision, s.Reached .calm ∧ s.site.Live 0 firstAssignment ∧
    (∀ desk ∈ s.desks, desk.roster.get? ⟨"ns", "a"⟩ = none) ∧ mid.Later .calm s ∧
    ∃ desk, mid.desks[0]? = some desk ∧ desk.IsOverreaching mid.site := by
  obtain ⟨s, hs, hp⟩ := exists_of_play (opening 9) overreaching_reached
    (p := fun s => s.runsFor 0 firstAssignment && s.isDown 0 &&
      s.desks.all fun desk => desk.roster.get? ⟨"ns", "a"⟩ = none)
    (by decide +kernel)
  simp only [Bool.and_eq_true, List.all_eq_true, decide_eq_true_eq] at hp
  obtain ⟨⟨hrun, hdown⟩, hnone⟩ := hp
  obtain ⟨mid, desk, -, hl, hd, ho⟩ :=
    (isDown_of_computed hs hdown).overreached Surroundings.isCalm_calm
  exact ⟨s, mid, hs, live_of_runsFor hrun, hnone, hl, desk, hd, ho⟩

end Supervision

end AddonWatch

import AddonWatch.Proofs.Weathering

namespace AddonWatch

/-- What the stored addon of the key points at. -/
def Hub.pointed (hub : Hub) (key : AddonKey) : Option Fingerprint :=
  (hub.wanted key).map Reference.fingerprint

theorem Hub.pointed_of_addon? {hub : Hub} {key : AddonKey} {addon : Addon} {reference : Reference}
    (ha : hub.addon? key.objectName = some addon) (hd : addon.desired = some reference) :
    hub.pointed key = some reference.fingerprint := by
  simp [pointed, Hub.wanted_of_addon? ha hd]

theorem Handle.isLive_of_live {site : Site} {i : Nat} {a : Assignment} {fingerprint : Fingerprint}
    (h : site.Live i a) : (⟨fingerprint, i⟩ : Handle).isLive site = true := by
  obtain ⟨-, child, hc, -⟩ := id h
  obtain ⟨-, hn, hr⟩ := h.running hc
  simp [Handle.isLive, hc, hn, hr]

/-- The reconciliation is about to bring the registry into line with an addon that points there. -/
def Reconciling.Aims (roster : Roster) (key : AddonKey) (aim : Option Fingerprint) :
    Reconciling → Prop
  | .fresh _ => True
  | .stopping _ => aim = none ∧ roster.get? key = none
  | .replacing _ _ reference _ => aim = some reference.fingerprint
  | .opening _ attempt => aim = some attempt.assignment.fingerprint

/-- The registered watcher of the key lives and is on the object that the addon points at; there is
none if it points at none. -/
def Roster.Minds (roster : Roster) (site : Site) (key : AddonKey) : Option Fingerprint → Prop
  | none => roster.get? key = none
  | some aim => ∃ handle, roster.get? key = some handle ∧ handle.isCurrent site aim = true

namespace Reconciling.Moves

variable {work : Reconciling} {site next : Site} {roster roster' : Roster} {key : AddonKey}
  {aim : Option Fingerprint}

theorem aims {work' : Reconciling} (h : work.Moves site roster next roster' (.inl work'))
    (hk : key.IsWellFormed) (hfit : work.Fits site roster key.text)
    (hp : site.hub.pointed key = aim) (ha : work.Aims roster key aim) :
    work'.Aims roster' key aim := by
  subst hp
  cases h with
  | stops _ other handle line note hparse hw hg =>
    obtain rfl := key_eq hk hfit hparse
    exact ⟨by simp [Hub.pointed, hw], Roster.get?_erase_self _ _⟩
  | asks _ other addon reference hparse haddon hd =>
    obtain rfl := key_eq hk hfit hparse
    exact Hub.pointed_of_addon? haddon hd
  | replaces _ other addon reference handle trace hparse haddon hd =>
    obtain rfl := key_eq hk hfit hparse
    exact Hub.pointed_of_addon? haddon hd
  | replaced other addon reference settling after hs => exact ha
  | waits => exact ha

/-- While it goes on, a reconciliation registers nothing under its key. -/
theorem get?_of_goesOn {work' : Reconciling} (h : work.Moves site roster next roster' (.inl work'))
    (hk : key.IsWellFormed) (hfit : work.Fits site roster key.text) :
    roster'.get? key = none := by
  cases h with
  | stops _ other _ _ _ hparse =>
    obtain rfl := key_eq hk hfit hparse
    exact Roster.get?_erase_self _ _
  | asks _ other _ _ hparse =>
    obtain rfl := key_eq hk hfit hparse
    exact Roster.get?_erase_self _ _
  | replaces _ other _ _ _ _ hparse =>
    obtain rfl := key_eq hk hfit hparse
    exact Roster.get?_erase_self _ _
  | replaced other =>
    obtain ⟨hw, ht, hg, -⟩ := hfit
    obtain rfl := AddonKey.text_inj hk hw ht
    exact hg
  | waits other =>
    obtain ⟨hw, ht, hg, -⟩ := hfit
    obtain rfl := AddonKey.text_inj hk hw ht
    exact hg

/-- A reconciliation that succeeds has brought the registry into line. -/
theorem minds (h : work.Moves site roster next roster' (.inr .done)) (hk : key.IsWellFormed)
    (hfit : work.Fits site roster key.text) (hh : site.halted = false)
    (hp : site.hub.pointed key = aim) (ha : work.Aims roster key aim) :
    roster'.Minds next key aim := by
  subst hp
  cases h with
  | absent _ other hparse hw =>
    obtain rfl := key_eq hk hfit hparse
    simp only [Hub.pointed, hw, Option.map_none]
    exact Roster.get?_erase_self _ _
  | keeps _ other reference handle hparse hw hg hcurrent =>
    obtain rfl := key_eq hk hfit hparse
    simp only [Hub.pointed, hw, Option.map_some]
    exact ⟨handle, hg, hcurrent⟩
  | stopped settling _ hs =>
    rw [ha.1]
    exact ha.2
  | builds other attempt line note =>
    obtain ⟨hw, ht, -⟩ := hfit
    obtain rfl := AddonKey.text_inj hk hw ht
    have hlive := attempt.live_begin_self hh
    rw [show site.hub.pointed key = _ from ha]
    refine ⟨_, Roster.get?_insert_self _ key _, ?_⟩
    simp only [Handle.isCurrent, Bool.and_eq_true, decide_eq_true_eq]
    exact ⟨rfl, Handle.isLive_of_live hlive⟩

end Reconciling.Moves

end AddonWatch

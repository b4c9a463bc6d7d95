import AddonWatch.Proofs.KeyText
import AddonWatch.Proofs.SiteGrowth

namespace AddonWatch

/-- The child exists, and lives for nothing any more. -/
def Site.Past (site : Site) (i : Nat) : Prop :=
  i < site.children.length ∧ ∀ a, ¬site.Live i a

theorem Site.Grows.past {old new : Site} (h : old.Grows new) {i : Nat} (hp : old.Past i) :
    new.Past i :=
  ⟨Nat.lt_of_lt_of_le hp.1 h.length, fun a hl => hp.2 a (h.live i a hp.1 hl)⟩

/-- A handle that counts as live stands for a child that lives for what it was started for. -/
theorem Handle.live_of_isLive {handle : Handle} {site : Site} {a : Assignment}
    (ha : site.assignment? handle.child = some a) (h : handle.isLive site = true) :
    site.Live handle.child a := by
  obtain ⟨child, hc, hchild⟩ := Option.bind_eq_some_iff.mp ha
  simp only [isLive, hc, Bool.and_eq_true, Bool.not_eq_true'] at h
  exact .of_running hc hchild h.1 h.2

/-- The handle stands for a child that was started for that key. -/
def Handle.IsFor (handle : Handle) (site : Site) (key : AddonKey) : Prop :=
  ∃ a, site.assignment? handle.child = some a ∧ a.key = key ∧ a.fingerprint = handle.fingerprint

namespace Handle.IsFor

variable {handle : Handle} {site next : Site} {key : AddonKey}

theorem lt_length (h : handle.IsFor site key) : handle.child < site.children.length := by
  obtain ⟨a, ha, -⟩ := h
  exact Site.lt_length_of_assignment? ha

theorem grows (hg : site.Grows next) (h : handle.IsFor site key) : handle.IsFor next key := by
  obtain ⟨a, ha, hrest⟩ := h
  exact ⟨a, (hg.assignment _ (lt_length ⟨a, ha, hrest⟩)).trans ha, hrest⟩

end Handle.IsFor

namespace Reconciling

/-- The reconciliation is for the key of that text, which has no watcher registered while one is
brought up, and the watcher that it waits for is past. -/
def Fits (site : Site) (roster : Roster) (text : String) : Reconciling → Prop
  | .fresh other => other = text
  | .stopping settling => site.Past settling.handle.child
  | .replacing key addon _ settling =>
    key.IsWellFormed ∧ text = key.text ∧ roster.get? key = none ∧ addon.key = key ∧
      site.Past settling.handle.child
  | .opening key attempt =>
    key.IsWellFormed ∧ text = key.text ∧ roster.get? key = none ∧ attempt.assignment.key = key

theorem Fits.grows {work : Reconciling} {old new : Site} {roster : Roster} {text : String}
    (hg : old.Grows new) (h : work.Fits old roster text) : work.Fits new roster text := by
  cases work with
  | fresh other => exact h
  | stopping settling => exact hg.past h
  | replacing key addon reference settling =>
    exact ⟨h.1, h.2.1, h.2.2.1, h.2.2.2.1, hg.past h.2.2.2.2⟩
  | opening key attempt => exact h

end Reconciling

theorem Hub.objectName_of_addon? {hub : Hub} {object : ObjectName} {addon : Addon}
    (h : hub.addon? object = some addon) : addon.objectName = object := by
  simpa using List.find?_some h

theorem Hub.config?_object {hub : Hub} {target : Target} {object : ObjectName}
    {config : ConfigObject} (h : hub.config? target object = some config) :
    config.object = object := by
  have hfound := List.find?_some h
  simpa using And.right ((Bool.and_eq_true ..).mp hfound)

/-- An addon that is stored under the name of a key is known by that key. -/
theorem Addon.key_of_objectName {addon : Addon} {key : AddonKey} (hw : key.IsWellFormed)
    (h : addon.objectName = key.objectName) : addon.key = key := by
  obtain ⟨hns, hname⟩ := ObjectName.mk.inj h
  have hne : key.name ≠ "" := by
    intro he
    exact hw.2.1 (by simp [he])
  cases hn : addon.metadata.name with
  | none =>
    rw [hn] at hname
    exact absurd hname.symm hne
  | some name =>
    rw [hn] at hname
    cases key
    simp only [Addon.key, hns, hn, Option.getD_some] at hname ⊢
    rw [hname]
    rfl

namespace Reconciling.Moves

variable {site next : Site} {roster roster' : Roster} {work : Reconciling} {text : String}

theorem past_fire {site : Site} {i : Nat} (h : i < site.children.length) :
    (site.fire i).Past i :=
  ⟨by simpa [Site.fire, Site.setChild] using h, site.not_live_fire i⟩

theorem fits {work' : Reconciling} (h : work.Moves site roster next roster' (.inl work'))
    (hfit : work.Fits site roster text)
    (hentries : ∀ e ∈ roster.entries, e.2.IsFor site e.1) : work'.Fits next roster' text := by
  cases h with
  | stops other key handle line note hp hw hg =>
    exact past_fire (hentries _ (Roster.mem_of_get? hg)).lt_length
  | asks other key addon reference hp ha hd hg =>
    obtain ⟨he, hk⟩ := AddonKey.parse_eq_ok_iff.mp hp
    refine ⟨hk, hfit.symm.trans he, roster.get?_erase_self key, ?_⟩
    exact Addon.key_of_objectName hk (Hub.objectName_of_addon? ha)
  | replaces other key addon reference handle trace hp ha hd hg hcurrent hw =>
    obtain ⟨he, hk⟩ := AddonKey.parse_eq_ok_iff.mp hp
    refine ⟨hk, hfit.symm.trans he, roster.get?_erase_self key,
      Addon.key_of_objectName hk (Hub.objectName_of_addon? ha), past_fire ?_⟩
    exact (hentries _ (Roster.mem_of_get? hg)).lt_length
  | replaced key addon reference settling after hs =>
    exact ⟨hfit.1, hfit.2.1, hfit.2.2.1, hfit.2.2.2.1⟩
  | waits key attempt call hcall => exact hfit

theorem nodup {result : Reconciling ⊕ Verdict} (h : work.Moves site roster next roster' result)
    (hn : roster.keys.Nodup) : roster'.keys.Nodup := by
  cases h with
  | absent _ key => exact Roster.nodup_keys_erase key hn
  | stops _ key => exact Roster.nodup_keys_erase key hn
  | asks _ key => exact Roster.nodup_keys_erase key hn
  | replaces _ key => exact Roster.nodup_keys_erase key hn
  | builds key => exact Roster.nodup_keys_insert key _ hn
  | _ => exact hn

/-- What is registered afterwards was registered before, or is the watcher just built for the key
of the reconciliation. -/
theorem entries {result : Reconciling ⊕ Verdict} (h : work.Moves site roster next roster' result)
    (hfit : work.Fits site roster text) (hentries : ∀ e ∈ roster.entries, e.2.IsFor site e.1) :
    ∀ e ∈ roster'.entries, e.2.IsFor next e.1 ∧ (e ∈ roster.entries ∨ e.1.text = text) := by
  have hg := h.grows
  have hkept : ∀ e ∈ roster.entries, e.2.IsFor next e.1 ∧ (e ∈ roster.entries ∨ e.1.text = text) :=
    fun e he => ⟨(hentries e he).grows hg, .inl he⟩
  have herased : ∀ key, ∀ e ∈ (roster.erase key).entries,
      e.2.IsFor next e.1 ∧ (e ∈ roster.entries ∨ e.1.text = text) :=
    fun key e he => hkept e (Roster.mem_entries_erase he).1
  cases h with
  | absent _ key => exact herased key
  | stops _ key => exact herased key
  | asks _ key => exact herased key
  | replaces _ key => exact herased key
  | builds key attempt line note hcall =>
    intro e he
    rcases Roster.mem_entries_insert he with rfl | he
    · obtain ⟨-, ht, -, hk⟩ := hfit
      refine ⟨⟨attempt.assignment, ?_, hk, rfl⟩, .inr ht.symm⟩
      exact attempt.assignment?_begin site
    · exact hkept e he
  | _ => exact hkept

/-- Every live child of a key whose watchers belong here stays registered, and the only new one is
for the key of the reconciliation. -/
theorem registers {result : Reconciling ⊕ Verdict} {mine : String → Prop}
    (h : work.Moves site roster next roster' result) (hfit : work.Fits site roster text)
    (hreg : ∀ i a, site.Live i a → mine a.key.text → roster.get? a.key = some ⟨a.fingerprint, i⟩)
    {i : Nat} {a : Assignment} (hl : next.Live i a) :
    (mine a.key.text → roster'.get? a.key = some ⟨a.fingerprint, i⟩) ∧
      (site.Live i a ∨ a.key.text = text) := by
  have hapart : ∀ {key : AddonKey}, roster.get? key ≠ some ⟨a.fingerprint, i⟩ → site.Live i a →
      mine a.key.text → a.key ≠ key := fun hne hold hm he => hne (he ▸ hreg i a hold hm)
  have herase : ∀ {key : AddonKey}, roster.get? key ≠ some ⟨a.fingerprint, i⟩ → site.Live i a →
      mine a.key.text → (roster.erase key).get? a.key = some ⟨a.fingerprint, i⟩ := by
    intro key hne hold hm
    rw [Roster.get?_erase_of_ne _ (hapart hne hold hm)]
    exact hreg i a hold hm
  have hother : ∀ {key : AddonKey} {handle : Handle}, roster.get? key = some handle →
      handle.child ≠ i → roster.get? key ≠ some ⟨a.fingerprint, i⟩ := by
    intro key handle hg hi he
    rw [hg] at he
    cases he
    exact hi rfl
  cases h with
  | absent _ key _ _ hg => exact ⟨herase (by simp [hg]) hl, .inl hl⟩
  | stops _ key handle _ _ _ _ hg =>
    have hi : handle.child ≠ i := fun he => by rw [he] at hl; exact Site.not_live_fire _ i a hl
    have hold := (Site.live_fire_of_ne hi).mp hl
    exact ⟨herase (hother hg hi) hold, .inl hold⟩
  | asks _ key addon reference _ _ _ hg =>
    have hold := (Opening.start_ages addon.key reference site).live i a hl
    exact ⟨herase (by simp [hg]) hold, .inl hold⟩
  | replaces _ key _ reference handle trace _ _ _ hg =>
    have hi : handle.child ≠ i := fun he => by rw [he] at hl; exact Site.not_live_fire _ i a hl
    have hold : site.Live i a := (Site.live_fire_of_ne hi).mp hl
    exact ⟨herase (hother hg hi) hold, .inl hold⟩
  | stopped settling _ hs =>
    have hold := hs.windsDown.ages.live i a hl
    exact ⟨hreg i a hold, .inl hold⟩
  | replaced key addon reference settling after hs =>
    have hafter := (Opening.start_ages addon.key reference after).live i a hl
    have hold := hs.windsDown.ages.live i a hafter
    exact ⟨hreg i a hold, .inl hold⟩
  | builds key attempt line note hcall =>
    obtain ⟨-, ht, hg, hk⟩ := hfit
    have hbegun : (attempt.begin site).1.Live i a := hl
    rcases Opening.live_begin hbegun with hold | ⟨rfl, rfl⟩
    · refine ⟨fun hm => ?_, .inl hold⟩
      rw [Roster.get?_insert_of_ne _ _ (hapart (by simp [hg]) hold hm)]
      exact hreg i a hold hm
    · refine ⟨fun _ => ?_, .inr (hk ▸ ht.symm)⟩
      rw [hk]
      exact Roster.get?_insert_self _ key _
  | _ => exact ⟨hreg i a hl, .inl hl⟩

end Reconciling.Moves

end AddonWatch

import AddonWatch.Proofs.Telling

namespace AddonWatch

/-- The registered watcher of the key is the one that the stored addon wants, and lives; there is
none if it wants none. -/
def Site.Agrees (site : Site) (roster : Roster) (key : AddonKey) : Prop :=
  match site.hub.wanted key with
  | none => roster.get? key = none
  | some reference => ∃ i, roster.get? key = some ⟨reference.fingerprint, i⟩ ∧
    site.Live i ⟨key, reference.fingerprint, reference.target⟩

/-- What the reconciliation is at is what the stored addon wants now. -/
def Reconciling.Serves (hub : Hub) (roster : Roster) (key : AddonKey) : Reconciling → Prop
  | .fresh _ => True
  | .stopping _ => hub.wanted key = none ∧ roster.get? key = none
  | .replacing _ _ reference _ => hub.wanted key = some reference
  | .opening _ attempt => ∃ reference, hub.wanted key = some reference ∧
    attempt.assignment = ⟨key, reference.fingerprint, reference.target⟩

theorem Hub.wanted_congr {old new : Hub} {key : AddonKey}
    (h : new.addon? key.objectName = old.addon? key.objectName) :
    new.wanted key = old.wanted key := by
  unfold wanted
  rw [h]

theorem Hub.addon?_congr {old new : Hub} (object : ObjectName) (h : new.addons = old.addons) :
    new.addon? object = old.addon? object := by
  unfold addon?
  rw [h]

theorem Hub.wanted_of_addon? {hub : Hub} {key : AddonKey} {addon : Addon} {reference : Reference}
    (ha : hub.addon? key.objectName = some addon) (hd : addon.desired = some reference) :
    hub.wanted key = some reference := by
  simp [wanted, ha, hd]

theorem Site.Agrees.congr {site next : Site} {roster roster' : Roster} {key : AddonKey}
    (h : site.Agrees roster key) (ha : next.hub.addon? key.objectName =
      site.hub.addon? key.objectName) (hr : roster'.get? key = roster.get? key)
    (hl : ∀ i a, site.Live i a → a.key = key → next.Live i a) : next.Agrees roster' key := by
  unfold Site.Agrees at h ⊢
  rw [Hub.wanted_congr ha]
  split
  next hw =>
    rw [hw] at h
    exact hr.trans h
  next reference hw =>
    rw [hw] at h
    obtain ⟨i, hg, hlive⟩ := h
    exact ⟨i, hr.trans hg, hl i _ hlive rfl⟩

theorem Reconciling.Serves.congr {work : Reconciling} {old new : Hub} {roster : Roster}
    {key : AddonKey} (h : work.Serves old roster key)
    (ha : new.addon? key.objectName = old.addon? key.objectName) : work.Serves new roster key := by
  have hw := Hub.wanted_congr ha
  cases work with
  | fresh => trivial
  | stopping => exact ⟨hw.trans h.1, h.2⟩
  | replacing => exact hw.trans h
  | opening =>
    obtain ⟨reference, hr, hrest⟩ := h
    exact ⟨reference, hw.trans hr, hrest⟩

theorem Site.WindsDown.addon? {site next : Site} (h : site.WindsDown next) (object : ObjectName) :
    next.hub.addon? object = site.hub.addon? object :=
  Hub.addon?_congr object h.hub.addons

namespace Reconciling.Moves

variable {work : Reconciling} {site next : Site} {roster roster' : Roster} {key : AddonKey}

theorem key_eq {text : String} {other : AddonKey} (hk : key.IsWellFormed) (ht : text = key.text)
    (hp : AddonKey.parse text = .ok other) : other = key := by
  obtain ⟨he, hw⟩ := AddonKey.parse_eq_ok_iff.mp hp
  exact AddonKey.text_inj hw hk (he.symm.trans ht)

/-- A reconciliation for another key leaves the watcher of this one alone. -/
theorem other {text : String} {result : Reconciling ⊕ Verdict}
    (h : work.Moves site roster next roster' result) (hfit : work.Fits site roster text)
    (hentries : ∀ e ∈ roster.entries, e.2.IsFor site e.1) (hne : text ≠ key.text) :
    roster'.get? key = roster.get? key ∧ ∀ i a, site.Live i a → a.key = key → next.Live i a := by
  have hkey : ∀ {text' : String} {other}, text' = text → AddonKey.parse text' = .ok other →
      key ≠ other := by
    rintro _ other rfl hp rfl
    exact hne (AddonKey.parse_eq_ok_iff.mp hp).1
  have hchild : ∀ {other : AddonKey} {handle}, roster.get? other = some handle → key ≠ other →
      ∀ i a, site.Live i a → a.key = key → handle.child ≠ i := by
    intro other handle hg hk i a hl ha hi
    obtain ⟨b, hb, hbk, -⟩ := hentries _ (Roster.mem_of_get? hg)
    rw [hi, hl.assignment?] at hb
    cases hb
    exact hk (ha.symm.trans hbk)
  have hpast : ∀ {settling : Settling}, site.Past settling.handle.child → ∀ i a, site.Live i a →
      settling.handle.child ≠ i := by
    intro settling hp i a hl hi
    exact hp.2 a (hi ▸ hl)
  cases h with
  | absent _ other hp => exact ⟨Roster.get?_erase_of_ne _ (hkey hfit hp), fun i a hl _ => hl⟩
  | stops _ other handle line note hp hw hg =>
    have hk := hkey hfit hp
    exact ⟨Roster.get?_erase_of_ne _ hk, fun i a hl ha =>
      (Site.live_fire_of_ne (hchild hg hk i a hl ha)).mpr hl⟩
  | asks _ other addon reference hp =>
    exact ⟨Roster.get?_erase_of_ne _ (hkey hfit hp), fun i a hl _ => hl⟩
  | replaces _ other addon reference handle trace hp ha hd hg =>
    have hk := hkey hfit hp
    exact ⟨Roster.get?_erase_of_ne _ hk, fun i a hl ha =>
      (Site.live_fire_of_ne (hchild hg hk i a hl ha)).mpr hl⟩
  | stopped settling _ hs =>
    exact ⟨rfl, fun i a hl _ => (hs.live_iff (hpast hfit i a hl)).mpr hl⟩
  | replaced other addon reference settling after hs =>
    exact ⟨rfl, fun i a hl _ => (hs.live_iff (hpast hfit.2.2.2.2 i a hl)).mpr hl⟩
  | builds other attempt line note =>
    have hk : key ≠ other := fun he => hne (he ▸ hfit.2.1)
    exact ⟨Roster.get?_insert_of_ne _ _ hk, fun i a hl _ => Opening.live_begin_of_lt hl⟩
  | _ => exact ⟨rfl, fun i a hl _ => hl⟩

/-- A reconciliation goes on to serve the addon as long as that does not change. -/
theorem serves {work' : Reconciling} (h : work.Moves site roster next roster' (.inl work'))
    (hk : key.IsWellFormed) (hfit : work.Fits site roster key.text)
    (hs : work.Serves site.hub roster key) : work'.Serves next.hub roster' key := by
  cases h with
  | stops _ other handle line note hp hw hg =>
    obtain rfl := key_eq hk hfit hp
    exact ⟨hw, Roster.get?_erase_self _ _⟩
  | asks _ other addon reference hp ha hd =>
    obtain rfl := key_eq hk hfit hp
    refine ⟨reference, Hub.wanted_of_addon? ha hd, ?_⟩
    have hkey := Addon.key_of_objectName hk (Hub.objectName_of_addon? ha)
    simp [Opening.start, hkey]
  | replaces _ other addon reference handle trace hp ha hd =>
    obtain rfl := key_eq hk hfit hp
    exact Hub.wanted_of_addon? ha hd
  | replaced other addon reference settling after hsettled =>
    obtain ⟨hw, ht, -, hkey, -⟩ := hfit
    obtain rfl := AddonKey.text_inj hk hw ht
    refine ⟨reference, ?_, ?_⟩
    · exact (Hub.wanted_congr (hsettled.windsDown.addon? _)).trans hs
    · simp [Opening.start, hkey]
  | waits => exact hs

/-- A reconciliation that ends has brought the watcher of its key into line, unless a subscription
has failed. -/
theorem agrees {verdict : Verdict} (h : work.Moves site roster next roster' (.inr verdict))
    (hk : key.IsWellFormed) (hfit : work.Fits site roster key.text) (hh : site.halted = false)
    (hs : work.Serves site.hub roster key)
    (hcurrent : ∀ (handle : Handle) (reference : Reference), roster.get? key = some handle →
      handle.isCurrent site reference.fingerprint = true →
        site.Live handle.child ⟨key, reference.fingerprint, reference.target⟩) :
    verdict = .done ∧ next.Agrees roster' key ∨
      (∃ fault, verdict = .failed fault ∧ fault.isRetryable = true) ∨ verdict = .crashed := by
  cases h with
  | refused _ fault hp =>
    have hok := AddonKey.parse_eq_ok_iff.mpr ⟨hfit, hk⟩
    rw [hp] at hok
    cases hok
  | absent _ other hp hw =>
    obtain rfl := key_eq hk hfit hp
    refine .inl ⟨rfl, ?_⟩
    unfold Site.Agrees
    rw [hw]
    exact Roster.get?_erase_self _ _
  | keeps _ other reference handle hp hw hg hc =>
    obtain rfl := key_eq hk hfit hp
    refine .inl ⟨rfl, ?_⟩
    unfold Site.Agrees
    rw [hw]
    have hfp : handle.fingerprint = reference.fingerprint := by
      simp only [Handle.isCurrent, Bool.and_eq_true, decide_eq_true_eq] at hc
      exact hc.1
    exact ⟨handle.child, by rw [hg, ← hfp], hcurrent handle reference hg hc⟩
  | stopped settling _ hsettled =>
    refine .inl ⟨rfl, ?_⟩
    unfold Site.Agrees
    rw [Hub.wanted_congr (hsettled.windsDown.addon? _), hs.1]
    exact hs.2
  | builds other attempt line note =>
    obtain ⟨hw, ht, -, -⟩ := hfit
    obtain rfl := AddonKey.text_inj hk hw ht
    obtain ⟨reference, hwanted, ha⟩ := hs
    refine .inl ⟨rfl, ?_⟩
    have hsame : (((attempt.begin site).1.log .info line).note .started key note).hub.wanted key =
        site.hub.wanted key := rfl
    unfold Site.Agrees
    rw [hsame, hwanted]
    refine ⟨site.children.length, ?_, ?_⟩
    · rw [Roster.get?_insert_self, Opening.begin_eq, ha]
    · rw [← ha]
      exact attempt.live_begin_self hh
  | fails _ attempt fault hretry => exact .inr (.inl ⟨fault, rfl, hretry⟩)
  | crashes => exact .inr (.inr rfl)

end Reconciling.Moves

end AddonWatch

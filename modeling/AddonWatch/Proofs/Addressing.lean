import AddonWatch.Proofs.KeyText
import AddonWatch.Reconciling
import Mathlib.Data.List.Basic

namespace AddonWatch

/-- However a text with a slash came about, the parts of a well-formed key can be told from it. -/
theorem AddonKey.IsWellFormed.parts_eq {key : AddonKey} (h : key.IsWellFormed) {ns name : String}
    (he : ns ++ "/" ++ name = key.text) : ns = key.ns ∧ name = key.name := by
  obtain ⟨-, -, hns, hname⟩ := h
  have hchars : ns.toList ++ '/' :: name.toList = key.ns.toList ++ '/' :: key.name.toList := by
    have hlist := congrArg String.toList he
    rw [key.toList_text] at hlist
    simpa using hlist
  obtain ⟨hbefore, -, hafter⟩ := (List.append_cons_inj_of_notMem hns hname).mp hchars.symm
  exact ⟨String.toList_inj.mp hbefore.symm, String.toList_inj.mp hafter.symm⟩

/-- What is refused is refused as it stands. -/
theorem AddonKey.parse_eq_error_iff {s : String} {fault : Fault} :
    AddonKey.parse s = .error fault ↔
      fault = .invalidKey s ∧ ∀ key : AddonKey, key.IsWellFormed → s ≠ key.text := by
  cases hp : AddonKey.parse s with
  | ok key =>
    obtain ⟨hs, hw⟩ := AddonKey.parse_eq_ok_iff.mp hp
    have hread : ¬∀ key : AddonKey, key.IsWellFormed → s ≠ key.text := fun hnone =>
      hnone key hw hs
    simp [hread]
  | error other =>
    have hother : other = .invalidKey s := by
      unfold AddonKey.parse at hp
      split at hp <;> cases hp
      rfl
    have hnone : ∀ key : AddonKey, key.IsWellFormed → s ≠ key.text := by
      intro key hw hs
      have hok := AddonKey.parse_eq_ok_iff.mpr ⟨hs, hw⟩
      rw [hok] at hp
      cases hp
    constructor
    · rintro ⟨⟩
      exact ⟨hother, hnone⟩
    · rintro ⟨rfl, -⟩
      rw [hother]

/-- A key that can be read from its own text is well formed, and it is read as it was. -/
theorem AddonKey.parse_text_iff {key other : AddonKey} :
    AddonKey.parse key.text = .ok other ↔ key.IsWellFormed ∧ other = key := by
  rw [AddonKey.parse_eq_ok_iff]
  constructor
  · rintro ⟨ht, hw⟩
    obtain ⟨hns, hname⟩ := hw.parts_eq ht
    obtain rfl : key = other := by
      cases key
      cases other
      simp only at hns hname
      rw [hns, hname]
    exact ⟨hw, rfl⟩
  · rintro ⟨hw, rfl⟩
    exact ⟨rfl, hw⟩

/-- A key is read from the text of an object exactly if the object is the one of the key, or one
without a namespace whose name is the text of the key. -/
theorem ObjectName.parse_text_iff {q : ObjectName} {key : AddonKey} :
    AddonKey.parse q.text = .ok key ↔
      key.IsWellFormed ∧ (q = key.objectName ∨ q.ns = none ∧ q.name = key.text) := by
  obtain ⟨ns?, name⟩ := q
  rw [AddonKey.parse_eq_ok_iff]
  cases ns? with
  | none =>
    have hother : (⟨none, name⟩ : ObjectName) ≠ key.objectName := by simp [AddonKey.objectName]
    simp [ObjectName.text, hother, and_comm]
  | some ns =>
    constructor
    · rintro ⟨ht, hw⟩
      obtain ⟨rfl, rfl⟩ := hw.parts_eq ht
      exact ⟨hw, .inl rfl⟩
    · rintro ⟨hw, he | ⟨hnone, -⟩⟩
      · obtain ⟨hns, rfl⟩ := ObjectName.mk.inj he
        cases hns
        exact ⟨rfl, hw⟩
      · cases hnone

/-- For the text of an object of a namespace, a reconciliation looks at that object. -/
theorem Reconciling.start_of_objectName {q : ObjectName} {key : AddonKey}
    (h : AddonKey.parse q.text = .ok key) (hns : q.ns ≠ none) (roster : Roster) (site : Site) :
    Reconciling.start q.text roster site =
      match decision (site.hub.addon? q) fun fingerprint =>
          (roster.get? key).any (·.isCurrent site fingerprint) with
      | .stop => Reconciling.stop key roster site
      | .keep => (site, roster, .inr .done)
      | .start addon reference => Reconciling.replace key addon reference roster site := by
  obtain ⟨-, rfl | ⟨hnone, -⟩⟩ := ObjectName.parse_text_iff.mp h
  · cases hd : decision (site.hub.addon? key.objectName) fun fingerprint =>
        (roster.get? key).any (·.isCurrent site fingerprint) <;>
      simp only [Reconciling.start, h, hd]
  · exact absurd hnone hns

/-- The texts under which work is queued stand for the keys. A text is read as a key exactly if it
consists of the two parts of the key with a slash between them, each of which holds something and no
slash, and the key gives the same text again; every other text is refused as it stands. The text of
a key is read exactly if the key is well formed, and then as this key. From the text of an object a
key is read only if the object is the one of the key, and then a reconciliation looks at that very
object, or if the object has no namespace and is named by the text of the key. -/
theorem AddonKey.texts_stand_for_keys (s : String) (key : AddonKey) (q : ObjectName) :
    (AddonKey.parse s = .ok key ↔ s = key.ns ++ "/" ++ key.name ∧ key.ns ≠ "" ∧ key.name ≠ "" ∧
      '/' ∉ key.ns.toList ∧ '/' ∉ key.name.toList) ∧
    (AddonKey.parse s = .ok key → key.text = s) ∧
    ((¬∃ ns name : String, s = ns ++ "/" ++ name ∧ ns ≠ "" ∧ name ≠ "" ∧ '/' ∉ ns.toList ∧
      '/' ∉ name.toList) ↔ AddonKey.parse s = .error (.invalidKey s)) ∧
    (∀ fault, AddonKey.parse s = .error fault → fault = .invalidKey s) ∧
    (∀ other, AddonKey.parse key.text = .ok other ↔ other = key ∧ key.ns ≠ "" ∧ key.name ≠ "" ∧
      '/' ∉ key.ns.toList ∧ '/' ∉ key.name.toList) ∧
    (AddonKey.parse q.text = .ok key →
      (q = key.objectName ∧ ∀ roster site, Reconciling.start q.text roster site =
        match decision (site.hub.addon? q) fun fingerprint =>
            (roster.get? key).any (·.isCurrent site fingerprint) with
        | .stop => Reconciling.stop key roster site
        | .keep => (site, roster, .inr .done)
        | .start addon reference => Reconciling.replace key addon reference roster site) ∨
      q.ns = none ∧ q.name = key.ns ++ "/" ++ key.name) := by
  refine ⟨AddonKey.parse_eq_ok_iff, fun h => (AddonKey.parse_eq_ok_iff.mp h).1.symm, ?_,
    fun fault h => (AddonKey.parse_eq_error_iff.mp h).1, fun other => ?_, fun h => ?_⟩
  · rw [AddonKey.parse_eq_error_iff]
    constructor
    · intro hnone
      exact ⟨rfl, fun other hw hs => hnone ⟨other.ns, other.name, hs, hw⟩⟩
    · rintro ⟨-, hnone⟩ ⟨ns, name, hs, hw⟩
      exact hnone ⟨ns, name⟩ hw hs
  · rw [AddonKey.parse_text_iff, and_comm]
    exact Iff.rfl
  · obtain ⟨-, he | hnone⟩ := ObjectName.parse_text_iff.mp h
    · have hns : q.ns ≠ none := by simp [he, AddonKey.objectName]
      exact .inl ⟨he, Reconciling.start_of_objectName h hns⟩
    · exact .inr hnone

/-- An object of a namespace is found by the text of its key, and an object without one can have the
same text. -/
theorem AddonKey.texts_stand_for_keys_apart :
    AddonKey.parse (⟨some "ns", "a"⟩ : ObjectName).text = .ok ⟨"ns", "a"⟩ ∧
    (⟨some "ns", "a"⟩ : ObjectName) = (⟨"ns", "a"⟩ : AddonKey).objectName ∧
    AddonKey.parse (⟨none, "ns/a"⟩ : ObjectName).text = .ok ⟨"ns", "a"⟩ ∧
    (⟨none, "ns/a"⟩ : ObjectName) ≠ (⟨"ns", "a"⟩ : AddonKey).objectName := by
  obtain ⟨hread, -, -, -, -, hown⟩ := texts_stand_for_keys "ns/a" ⟨"ns", "a"⟩ ⟨some "ns", "a"⟩
  have hparsed : AddonKey.parse "ns/a" = .ok ⟨"ns", "a"⟩ :=
    hread.mpr ⟨by decide, by decide, by decide, by decide, by decide⟩
  have hnamed : (⟨some "ns", "a"⟩ : ObjectName) = (⟨"ns", "a"⟩ : AddonKey).objectName :=
    ((hown hparsed).resolve_right (by simp)).1
  exact ⟨hparsed, hnamed, hparsed, by decide⟩

end AddonWatch

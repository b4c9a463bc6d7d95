import AddonWatch.Fault
import Mathlib.Data.List.TakeDrop
import Mathlib.Data.List.TakeWhile

namespace AddonWatch

/-- Both parts hold something, and neither holds a slash: such a key can be read back. -/
def AddonKey.IsWellFormed (key : AddonKey) : Prop :=
  key.ns ≠ "" ∧ key.name ≠ "" ∧ '/' ∉ key.ns.toList ∧ '/' ∉ key.name.toList

instance (key : AddonKey) : Decidable key.IsWellFormed := by
  unfold AddonKey.IsWellFormed; infer_instance

theorem AddonKey.toList_text (key : AddonKey) :
    key.text.toList = key.ns.toList ++ '/' :: key.name.toList := by
  simp [AddonKey.text]

/-- Up to the first slash nothing is split off. -/
theorem span_slash {xs ys : List Char} (h : '/' ∉ xs) :
    (xs ++ '/' :: ys).span (· ≠ '/') = (xs, '/' :: ys) := by
  have hx : ∀ c ∈ xs, (decide (c ≠ '/')) = true := by
    intro c hc
    have : c ≠ '/' := fun he => h (he ▸ hc)
    simpa using this
  rw [List.span_eq_takeWhile_dropWhile, List.takeWhile_append_of_pos hx,
    List.dropWhile_append_of_pos hx]
  simp

theorem span_slash_eq {xs before after : List Char} {c : Char}
    (h : xs.span (· ≠ '/') = (before, c :: after)) :
    xs = before ++ '/' :: after ∧ '/' ∉ before := by
  rw [List.span_eq_takeWhile_dropWhile] at h
  obtain ⟨ht, hd⟩ := Prod.mk.inj h
  have hc : c = '/' := by
    have hne : xs.dropWhile (fun c => decide (c ≠ '/')) ≠ [] := by rw [hd]; simp
    have hn := List.head_dropWhile_not (fun c => decide (c ≠ '/')) hne
    simpa only [hd, List.head_cons, decide_eq_false_iff_not, not_not] using hn
  subst hc
  refine ⟨?_, ?_⟩
  · rw [← ht, ← hd]
    exact List.takeWhile_append_dropWhile.symm
  · intro hm
    rw [← ht] at hm
    simpa using List.mem_takeWhile_imp hm

/-- A text is read as a key exactly if it is that key's text and the key is well formed. -/
theorem AddonKey.parse?_eq_some_iff {s : String} {key : AddonKey} :
    AddonKey.parse? s = some key ↔ s = key.text ∧ key.IsWellFormed := by
  constructor
  · intro h
    unfold AddonKey.parse? at h
    split at h
    next before c after hs =>
      split at h
      next => simp at h
      next hb =>
        cases Option.some.inj h
        obtain ⟨he, hn⟩ := span_slash_eq hs
        have hns : String.ofList before ≠ "" := by
          intro h0
          have : before = [] := by simpa using congrArg String.toList h0
          simp [this] at hb
        have hname : String.ofList after ≠ "" := by
          intro h0
          have : after = [] := by simpa using congrArg String.toList h0
          simp [this] at hb
        refine ⟨?_, hns, hname, by simpa using hn, ?_⟩
        · apply String.toList_inj.mp
          simpa [AddonKey.toList_text] using he
        · intro hm
          have : '/' ∈ after := by simpa using hm
          simp [this] at hb
    next => simp at h
  · rintro ⟨rfl, hns, hname, hs, hm⟩
    have h1 : key.ns.toList ≠ [] := by simpa using hns
    have h2 : key.name.toList ≠ [] := by simpa using hname
    have h3 : '/' ∉ key.name.toList := hm
    unfold AddonKey.parse?
    rw [AddonKey.toList_text, span_slash hs]
    simp [h1, h2, h3]

theorem AddonKey.parse_eq_ok_iff {s : String} {key : AddonKey} :
    AddonKey.parse s = .ok key ↔ s = key.text ∧ key.IsWellFormed := by
  rw [← AddonKey.parse?_eq_some_iff]
  unfold AddonKey.parse
  cases AddonKey.parse? s <;> simp

theorem AddonKey.text_inj {a b : AddonKey} (ha : a.IsWellFormed) (hb : b.IsWellFormed)
    (h : a.text = b.text) : a = b := by
  have h1 := AddonKey.parse?_eq_some_iff.mpr ⟨rfl, ha⟩
  have h2 := AddonKey.parse?_eq_some_iff.mpr ⟨h, hb⟩
  exact Option.some.inj (h1.symm.trans h2)

end AddonWatch

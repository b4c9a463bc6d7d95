import AddonWatch.Addon.Reference
import AddonWatch.Proofs.KeyText

namespace AddonWatch

/-- No coordinate of the reference holds a slash. -/
def Reference.IsSlashFree (reference : Reference) : Prop :=
  '/' ∉ reference.group.toList ∧ '/' ∉ reference.version.toList ∧
    '/' ∉ reference.resource.toList ∧ '/' ∉ reference.ns.toList ∧ '/' ∉ reference.name.toList

instance (reference : Reference) : Decidable reference.IsSlashFree := by
  unfold Reference.IsSlashFree; infer_instance

/-- The coordinates of the object, with nothing said about its generation. -/
def Reference.coordinates (reference : Reference) : List (List Char) :=
  [reference.group.toList, reference.version.toList, reference.resource.toList,
    reference.ns.toList, reference.name.toList]

/-- Texts written behind one another with slashes between them. -/
def slashed : List (List Char) → List Char
  | [] => []
  | [part] => part
  | part :: parts => part ++ '/' :: slashed parts

theorem Reference.toList_fingerprint (reference : Reference) :
    reference.fingerprint.text.toList = slashed reference.coordinates := by
  simp [Reference.fingerprint, Reference.coordinates, slashed]

theorem count_slashed (part : List Char) (parts : List (List Char)) :
    (slashed (part :: parts)).count '/' =
      parts.length + (part :: parts).flatten.count '/' := by
  induction parts generalizing part with
  | nil => simp [slashed]
  | cons next parts ih =>
    have hn := ih next
    have hs : slashed (part :: next :: parts) = part ++ '/' :: slashed (next :: parts) := rfl
    rw [hs, List.count_append, List.count_cons_self, hn]
    rw [@List.flatten_cons _ part, List.count_append, List.length_cons]
    omega

/-- Parts without a slash are told apart in their joined text. -/
theorem slashed_inj {xs ys : List (List Char)} (hx : ∀ x ∈ xs, '/' ∉ x) (hy : ∀ y ∈ ys, '/' ∉ y)
    (hlen : xs.length = ys.length) (h : slashed xs = slashed ys) : xs = ys := by
  induction xs generalizing ys with
  | nil => exact (List.length_eq_zero_iff.mp hlen.symm).symm
  | cons x xs ih =>
    obtain ⟨y, ys, rfl⟩ := List.exists_cons_of_length_eq_add_one hlen.symm
    have hlen' : xs.length = ys.length := by simpa using hlen
    have hx' := List.forall_mem_cons.mp hx
    have hy' := List.forall_mem_cons.mp hy
    cases xs with
    | nil =>
      have hys : ys = [] := List.length_eq_zero_iff.mp hlen'.symm
      subst hys
      simpa [slashed] using h
    | cons x' xs =>
      obtain ⟨y', ys, rfl⟩ := List.exists_cons_of_length_eq_add_one hlen'.symm
      have hs := congrArg (List.span (· ≠ '/')) h
      simp only [slashed] at hs
      rw [span_slash hx'.1, span_slash hy'.1] at hs
      obtain ⟨he, ht⟩ := Prod.mk.inj hs
      rw [he, ih hx'.2 hy'.2 hlen' (List.cons.inj ht).2]

theorem Reference.isSlashFree_iff {reference : Reference} :
    reference.IsSlashFree ↔ ∀ part ∈ reference.coordinates, '/' ∉ part := by
  simp [Reference.IsSlashFree, Reference.coordinates]

/-- A fingerprint without a stray slash belongs to one object only. -/
theorem Reference.coordinates_of_fingerprint {a b : Reference} (ha : a.IsSlashFree)
    (h : b.fingerprint = a.fingerprint) : b.coordinates = a.coordinates := by
  have ht : slashed b.coordinates = slashed a.coordinates := by
    rw [← Reference.toList_fingerprint, ← Reference.toList_fingerprint, h]
  have ha' := Reference.isSlashFree_iff.mp ha
  have hzero : a.coordinates.flatten.count '/' = 0 := by
    apply List.count_eq_zero.mpr
    intro hm
    obtain ⟨part, hp, hs⟩ := List.mem_flatten.mp hm
    exact ha' part hp hs
  have hcount := congrArg (List.count '/') ht
  unfold Reference.coordinates at hcount hzero
  rw [count_slashed, count_slashed, hzero] at hcount
  have hb' : ∀ part ∈ b.coordinates, '/' ∉ part := by
    intro part hp hs
    have hnone := List.count_eq_zero.mp (Nat.add_left_cancel hcount)
    exact hnone (List.mem_flatten.mpr ⟨part, hp, hs⟩)
  exact slashed_inj hb' ha' rfl ht

theorem Reference.IsSlashFree.of_fingerprint {a b : Reference} (ha : a.IsSlashFree)
    (h : b.fingerprint = a.fingerprint) : b.IsSlashFree := by
  rw [Reference.isSlashFree_iff, Reference.coordinates_of_fingerprint ha h]
  exact Reference.isSlashFree_iff.mp ha

theorem Reference.target_of_fingerprint {a b : Reference} (ha : a.IsSlashFree)
    (h : b.fingerprint = a.fingerprint) : b.target = a.target := by
  have hc := Reference.coordinates_of_fingerprint ha h
  simp only [Reference.coordinates, List.cons.injEq, String.toList_inj, and_true] at hc
  obtain ⟨hg, hv, hr, hn, hm⟩ := hc
  simp [Reference.target, hg, hv, hr, hn, hm]

end AddonWatch

import AddonWatch.Reconciling
import AddonWatch.Proofs.Identity

namespace AddonWatch

theorem splitOn_slashed (part : List Char) (parts : List (List Char)) :
    (slashed (part :: parts)).splitOn '/' = (part :: parts).flatMap (List.splitOn '/') := by
  induction parts generalizing part with
  | nil => simp [slashed]
  | cons next parts ih =>
    have hs : slashed (part :: next :: parts) = part ++ '/' :: slashed (next :: parts) := rfl
    rw [hs, List.splitOn_append_cons_self, ih]
    rfl

theorem splitOn_slash_inj {xs ys : List Char} (h : xs.splitOn '/' = ys.splitOn '/') : xs = ys := by
  have hx : ['/'].intercalate (xs.splitOn '/') = xs := List.intercalate_splitOn '/'
  have hy : ['/'].intercalate (ys.splitOn '/') = ys := List.intercalate_splitOn '/'
  rw [← hx, h, hy]

theorem length_splitOn_slash (xs : List Char) :
    (xs.splitOn '/').length = xs.count '/' + 1 := by
  induction xs with
  | nil => rfl
  | cons c xs ih =>
    rw [List.splitOn_cons_eq_if_modifyHead, List.count_cons]
    split
    next hc => rw [List.length_cons, ih]
    next hc => rw [List.length_modifyHead, ih]

/-- With as many slashes in each part, parts are told apart by what stands between slashes. -/
theorem flatMap_splitOn_inj {xs ys : List (List Char)}
    (hcount : xs.map (List.count '/') = ys.map (List.count '/'))
    (h : xs.flatMap (List.splitOn '/') = ys.flatMap (List.splitOn '/')) : xs = ys := by
  induction xs generalizing ys with
  | nil =>
    have hlen : ys.length = 0 := by simpa using (congrArg List.length hcount).symm
    exact (List.length_eq_zero_iff.mp hlen).symm
  | cons x xs ih =>
    obtain ⟨y, ys, rfl⟩ : ∃ y ys', ys = y :: ys' := by
      cases ys with
      | nil => cases hcount
      | cons y ys => exact ⟨y, ys, rfl⟩
    obtain ⟨hfirst, hrest⟩ := List.cons.inj hcount
    have hlen : (x.splitOn '/').length = (y.splitOn '/').length := by
      rw [length_splitOn_slash, length_splitOn_slash, hfirst]
    rw [List.flatMap_cons, List.flatMap_cons] at h
    obtain ⟨hx, hxs⟩ := List.append_inj h hlen
    rw [splitOn_slash_inj hx, ih hrest hxs]

namespace Reference

variable {a b : Reference}

theorem splitOn_fingerprint (reference : Reference) :
    reference.fingerprint.text.toList.splitOn '/' =
      reference.coordinates.flatMap (List.splitOn '/') := by
  rw [toList_fingerprint]
  exact splitOn_slashed _ _

/-- A fingerprint tells what stands between the slashes, not which of them divide coordinates. -/
theorem fingerprint_eq_iff :
    a.fingerprint = b.fingerprint ↔
      a.coordinates.flatMap (List.splitOn '/') = b.coordinates.flatMap (List.splitOn '/') := by
  rw [← splitOn_fingerprint, ← splitOn_fingerprint]
  constructor
  · intro h
    rw [h]
  · intro h
    have ht := String.toList_inj.mp (splitOn_slash_inj h)
    exact congrArg Fingerprint.mk ht

theorem coordinates_eq_iff :
    a.coordinates = b.coordinates ↔ a.group = b.group ∧ a.version = b.version ∧
      a.resource = b.resource ∧ a.ns = b.ns ∧ a.name = b.name := by
  simp only [coordinates, List.cons.injEq, String.toList_inj, and_true]

theorem fingerprint_of_coordinates (h : a.coordinates = b.coordinates) :
    a.fingerprint = b.fingerprint := by
  rw [fingerprint_eq_iff, h]

/-- The namespace of a target is left out exactly where that of the reference is empty. -/
theorem target_eq_iff : a.target = b.target ↔ a.coordinates = b.coordinates := by
  rw [coordinates_eq_iff]
  have hns : ((if a.ns = "" then none else some a.ns) = if b.ns = "" then none else some b.ns) ↔
      a.ns = b.ns := by
    by_cases ha : a.ns = "" <;> by_cases hb : b.ns = "" <;> simp [ha, hb, eq_comm]
  simp only [target, Target.mk.injEq, hns]

end Reference

/-- A watcher that counts as current for a fingerprint was started with it. -/
theorem Opening.fingerprint_of_isCurrent {o : Opening} {site now : Site} {fingerprint : Fingerprint}
    (h : (o.begin site).2.isCurrent now fingerprint = true) :
    o.assignment.fingerprint = fingerprint := by
  have hboth := Bool.and_eq_true_iff.mp h
  exact of_decide_eq_true hboth.1

namespace Reference

/-- Two references have the same target exactly if their coordinates are the same. Then they share a
fingerprint; the other way round this holds exactly if each coordinate has as many slashes in one as
in the other, and so in any case if one of the two has none. A watcher that is kept for a reference
is then on the object that this points at. The observed generation is no part of all this. -/
theorem fingerprint_identifies (a b : Reference) :
    (a.target = b.target ↔ a.group = b.group ∧ a.version = b.version ∧
      a.resource = b.resource ∧ a.ns = b.ns ∧ a.name = b.name) ∧
    (a.target = b.target ↔ a.fingerprint = b.fingerprint ∧
      a.coordinates.map (List.count '/') = b.coordinates.map (List.count '/')) ∧
    (a.IsSlashFree → (a.fingerprint = b.fingerprint ↔ a.target = b.target)) ∧
    (a.fingerprint = b.fingerprint ↔
      a.coordinates.flatMap (List.splitOn '/') = b.coordinates.flatMap (List.splitOn '/')) ∧
    (∀ observed, { a with observed := observed }.fingerprint = a.fingerprint ∧
      { a with observed := observed }.target = a.target) ∧
    ∀ (key : AddonKey) (asked granted now : Site),
      ((Opening.start key a asked).2.begin granted).2.isCurrent now b.fingerprint = true →
      a.coordinates.map (List.count '/') = b.coordinates.map (List.count '/') →
        (Opening.start key a asked).2.assignment.target = b.target := by
  have hexact : a.target = b.target ↔ a.fingerprint = b.fingerprint ∧
      a.coordinates.map (List.count '/') = b.coordinates.map (List.count '/') := by
    rw [target_eq_iff]
    constructor
    · intro h
      exact ⟨fingerprint_of_coordinates h, by rw [h]⟩
    · rintro ⟨hf, hcount⟩
      exact flatMap_splitOn_inj hcount (fingerprint_eq_iff.mp hf)
  refine ⟨target_eq_iff.trans coordinates_eq_iff, hexact, fun ha => ⟨fun hf => ?_, fun ht => ?_⟩,
    fingerprint_eq_iff, fun observed => ⟨rfl, rfl⟩, fun key asked granted now hc hcount => ?_⟩
  · exact (target_of_fingerprint ha hf.symm).symm
  · exact (hexact.mp ht).1
  · have hf : a.fingerprint = b.fingerprint := Opening.fingerprint_of_isCurrent hc
    exact hexact.mpr ⟨hf, hcount⟩

/-- The object `x/t` of a namespace. -/
def below : Reference :=
  { group := "cfg.test", version := "v1", resource := "tests", ns := "ns1", name := "x/t" }

/-- The object `t` of a namespace whose name goes on behind a slash. -/
def beside : Reference :=
  { group := "cfg.test", version := "v1", resource := "tests", ns := "ns1/x", name := "t" }

/-- A slash within a coordinate may stand for one between two: the fingerprints of two objects are
the same, and the watcher of the one is kept for the other. -/
theorem fingerprint_shared :
    below.fingerprint = beside.fingerprint ∧ below.ns ≠ beside.ns ∧ below.name ≠ beside.name ∧
      below.target ≠ beside.target ∧
      ∃ running : Site, running.children.length = 1 ∧
        ((Opening.start ⟨"ns1", "a1"⟩ below {}).2.begin {}).2.isCurrent running
          beside.fingerprint = true := by
  refine ⟨by decide, by decide, by decide, by decide,
    ((Opening.start ⟨"ns1", "a1"⟩ below {}).2.begin {}).1, rfl, by decide⟩

theorem fingerprint_identifies_first :
    ((Opening.start ⟨"ns1", "a1"⟩ below {}).2.begin {}).2.isCurrent
        ((Opening.start ⟨"ns1", "a1"⟩ below {}).2.begin {}).1
        { below with observed := .bump .zero }.fingerprint = true ∧
      (Opening.start ⟨"ns1", "a1"⟩ below {}).2.assignment.target =
        { below with observed := .bump .zero }.target ∧
      { below with name := "x" }.fingerprint ≠ beside.fingerprint := by
  have hcurrent : ((Opening.start ⟨"ns1", "a1"⟩ below {}).2.begin {}).2.isCurrent
      ((Opening.start ⟨"ns1", "a1"⟩ below {}).2.begin {}).1
      { below with observed := .bump .zero }.fingerprint = true := by decide
  obtain ⟨-, -, -, -, -, hkept⟩ :=
    fingerprint_identifies below { below with observed := .bump .zero }
  obtain ⟨-, -, hfree, -⟩ := fingerprint_identifies { below with name := "x" } beside
  refine ⟨hcurrent, hkept _ _ _ _ hcurrent rfl, fun hf => ?_⟩
  exact absurd ((hfree (by decide)).mp hf) (by decide)

end Reference

end AddonWatch

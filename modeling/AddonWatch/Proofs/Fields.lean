import AddonWatch.Addon.Decoding
import AddonWatch.Addon.Encoding
import Mathlib.Data.List.Nodup

namespace AddonWatch

section Except

variable {ε α β : Type} {x : Except ε α}

theorem bind_ok_iff {f : α → Except ε β} {b : β} :
    x >>= f = .ok b ↔ ∃ a, x = .ok a ∧ f a = .ok b := by
  cases x with
  | error e => simp [bind, Except.bind]
  | ok a => simp [bind, Except.bind]

theorem map_ok_iff {f : α → β} {b : β} : x.map f = .ok b ↔ ∃ a, x = .ok a ∧ f a = b := by
  cases x with
  | error e => simp [Except.map]
  | ok a => simp [Except.map]

end Except

namespace Json

/-- The document with the values of an array under the names of the fields that they stand for. -/
def named (names : List String) : Json → Json
  | .arr items => .obj (names.zip items)
  | document => document

def members : Json → List (String × Json)
  | .obj members => members
  | _ => []

def fields (names : List String) (document : Json) : List (String × Json) :=
  (document.named names).members

/-- What can be reached by going into members one after the other. -/
inductive Holds : Json → List String → Json → Prop
  | here (document : Json) : Holds document [] document
  | inside (members : List (String × Json)) (name : String) (part : Json) (path : List String)
      (value : Json) (hm : (name, part) ∈ members) (h : Holds part path value) :
      Holds (.obj members) (name :: path) value

variable {document value : Json} {name : String} {path names : List String}

theorem holds_cons_iff :
    document.Holds (name :: path) value ↔
      ∃ part, (name, part) ∈ document.members ∧ part.Holds path value := by
  constructor
  · intro h
    cases h with
    | inside _ _ part _ _ hm h => exact ⟨part, hm, h⟩
  · rintro ⟨part, hm, h⟩
    cases document with
    | obj members => exact .inside members name part path value hm h
    | _ => cases hm

theorem mem_members_of_get (h : document.get name = some value) :
    (name, value) ∈ document.members := by
  unfold get at h
  split at h
  next members =>
    obtain ⟨m, hm, rfl⟩ := Option.map_eq_some_iff.mp h
    have hname : m.1 = name := by simpa using List.find?_some hm
    rw [← hname]
    exact List.mem_reverse.mp (List.mem_of_find?_eq_some hm)
  next => cases h

theorem countP_zip_le (name : String) (names : List String) (items : List Json) :
    (names.zip items).countP (fun m => m.1 = name) ≤ names.countP (fun n => n = name) := by
  induction names generalizing items with
  | nil => simp
  | cons n rest ih =>
    cases items with
    | nil => simp
    | cons item others =>
      have hrest := ih others
      rw [List.zip_cons_cons, List.countP_cons, List.countP_cons]
      split <;> omega

theorem decode_of_optional {α : Type} {read : Json → Except Flaw α} {a : α}
    (h : document.optional read = .ok (some a)) : read document = .ok a := by
  unfold optional at h
  split at h
  next => cases h
  next =>
    obtain ⟨b, hb, he⟩ := map_ok_iff.mp h
    cases he
    exact hb

section TakingFields

variable {β γ : Type} {put : β → String × Json → Except Flaw β} {start found : β}
  {given : List String} {view : β → γ} {read : Json → Except Flaw γ}

/-- Fields are taken one by one under their names, and none of them twice. -/
theorem takeFields_ok (hnames : names.Nodup)
    (h : document.takeFields names put start = .ok (found, given)) :
    (document.fields names).foldlM put start = .ok found ∧
      ∀ name ∈ names, (document.fields names).countP (fun m => m.1 = name) ≤ 1 := by
  unfold takeFields at h
  split at h
  next members =>
    split at h
    · cases h
    next hsingle =>
      obtain ⟨-, -, h⟩ := bind_ok_iff.mp h
      obtain ⟨all, hfold, h⟩ := bind_ok_iff.mp h
      cases h
      refine ⟨hfold, fun name hm => ?_⟩
      by_contra hmore
      refine hsingle (List.any_eq_true.mpr ⟨name, hm, ?_⟩)
      exact decide_eq_true (Nat.lt_of_not_le hmore)
  next items =>
    obtain ⟨all, hfold, h⟩ := bind_ok_iff.mp h
    obtain ⟨-, -, h⟩ := bind_ok_iff.mp h
    cases h
    refine ⟨hfold, fun name hm => ?_⟩
    have hzip := countP_zip_le name names items
    have honce := List.nodup_iff_count_le_one.mp hnames name
    exact Nat.le_trans hzip honce
  next => 
    unfold refuse at h
    split at h <;> cases h

theorem view_of_absent {fields : List (String × Json)}
    (hother : ∀ b b' m, m.1 ≠ name → put b m = .ok b' → view b' = view b)
    (habsent : ∀ m ∈ fields, m.1 ≠ name) (h : fields.foldlM put start = .ok found) :
    view found = view start := by
  induction fields generalizing start with
  | nil => cases h; rfl
  | cons m rest ih =>
    obtain ⟨mid, hput, h⟩ := bind_ok_iff.mp h
    have hmid := hother start mid m (habsent m List.mem_cons_self) hput
    rw [← hmid]
    exact ih (fun m' hm' => habsent m' (List.mem_cons_of_mem _ hm')) h

/-- A view that each field but one leaves alone is what that one is read as. -/
theorem view_of_given {fields : List (String × Json)}
    (hself : ∀ b b' v, put b (name, v) = .ok b' → read v = .ok (view b'))
    (hother : ∀ b b' m, m.1 ≠ name → put b m = .ok b' → view b' = view b)
    (honce : fields.countP (fun m => m.1 = name) ≤ 1) (h : fields.foldlM put start = .ok found)
    (hm : (name, value) ∈ fields) : read value = .ok (view found) := by
  induction fields generalizing start with
  | nil => cases hm
  | cons m rest ih =>
    obtain ⟨mid, hput, hrest⟩ := bind_ok_iff.mp h
    rw [List.countP_cons] at honce
    rcases List.mem_cons.mp hm with rfl | hm
    · rw [if_pos (decide_eq_true rfl)] at honce
      have hnone : rest.countP (fun m => m.1 = name) = 0 := by omega
      have habsent : ∀ m ∈ rest, m.1 ≠ name := by
        simpa using List.countP_eq_zero.mp hnone
      rw [view_of_absent hother habsent hrest]
      exact hself start mid value hput
    · exact ih (by omega) hrest hm

/-- What is read off a document under one of its names is that field, or what was there before. -/
theorem view_of_takeFields (view : β → γ) (read : Json → Except Flaw γ) (hnames : names.Nodup)
    (hname : name ∈ names)
    (hself : ∀ b b' v, put b (name, v) = .ok b' → read v = .ok (view b'))
    (hother : ∀ b b' m, m.1 ≠ name → put b m = .ok b' → view b' = view b)
    (h : document.takeFields names put start = .ok (found, given)) :
    (∀ v, (name, v) ∈ document.fields names → read v = .ok (view found)) ∧
      ((∀ m ∈ document.fields names, m.1 ≠ name) → view found = view start) := by
  obtain ⟨hfold, honce⟩ := takeFields_ok hnames h
  constructor
  · intro v hv
    exact view_of_given hself hother (honce name hname) hfold hv
  · intro habsent
    exact view_of_absent hother habsent hfold

/-- What is found in place of nothing is the field of that name. -/
theorem found_of_takeFields {a : γ} (view : β → Option γ) (read : Json → Except Flaw γ)
    (hnames : names.Nodup) (hname : name ∈ names)
    (hself : ∀ b b' v, put b (name, v) = .ok b' → v.optional read = .ok (view b'))
    (hother : ∀ b b' m, m.1 ≠ name → put b m = .ok b' → view b' = view b)
    (h : document.takeFields names put start = .ok (found, given)) (hstart : view start = none)
    (ha : view found = some a) :
    (∃ v, (name, v) ∈ document.fields names) ∧
      ∀ v, (name, v) ∈ document.fields names → read v = .ok a := by
  obtain ⟨hgiven, habsent⟩ := view_of_takeFields view _ hnames hname hself hother h
  constructor
  · by_contra hnone
    have hfound := habsent fun m hm hn => hnone ⟨m.2, hn ▸ hm⟩
    rw [ha, hstart] at hfound
    cases hfound
  · intro v hv
    have hread := hgiven v hv
    rw [ha] at hread
    exact decode_of_optional hread

end TakingFields

end Json

end AddonWatch

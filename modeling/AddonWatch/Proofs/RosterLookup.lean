import AddonWatch.Desk

namespace AddonWatch

theorem lookup_filter_ne_self {α β : Type} [BEq α] [LawfulBEq α] [DecidableEq α] (key : α)
    (entries : List (α × β)) : (entries.filter fun e => e.1 ≠ key).lookup key = none := by
  induction entries with
  | nil => rfl
  | cons e rest ih =>
    obtain ⟨k, value⟩ := e
    by_cases h : k = key
    · simpa [List.filter_cons, h] using ih
    · simp only [List.filter_cons, h, ne_eq, not_false_eq_true, decide_true, if_true]
      rw [List.lookup_cons, beq_false_of_ne (Ne.symm h)]
      exact ih

theorem lookup_filter_ne {α β : Type} [BEq α] [LawfulBEq α] [DecidableEq α] {key other : α}
    (entries : List (α × β)) (h : other ≠ key) :
    (entries.filter fun e => e.1 ≠ key).lookup other = entries.lookup other := by
  induction entries with
  | nil => rfl
  | cons e rest ih =>
    obtain ⟨k, value⟩ := e
    by_cases hk : k = key
    · have hne : (other == k) = false := beq_false_of_ne (hk ▸ h)
      simpa [List.filter_cons, hk, List.lookup_cons, hk ▸ hne] using ih
    · simp only [List.filter_cons, hk, ne_eq, not_false_eq_true, decide_true, if_true,
        List.lookup_cons] at ih ⊢
      rw [ih]

theorem mem_of_lookup {α β : Type} [BEq α] [LawfulBEq α] {key : α} {value : β}
    {entries : List (α × β)} (h : entries.lookup key = some value) : (key, value) ∈ entries := by
  obtain ⟨before, after, he, -⟩ := List.lookup_eq_some_iff.mp h
  simp [he]

theorem lookup_of_mem {α β : Type} [BEq α] [LawfulBEq α] {key : α} {value : β}
    {entries : List (α × β)} (hn : (entries.map Prod.fst).Nodup) (h : (key, value) ∈ entries) :
    entries.lookup key = some value := by
  induction entries with
  | nil => simp at h
  | cons e rest ih =>
    obtain ⟨hfresh, hrest⟩ := List.nodup_cons.mp hn
    rcases List.mem_cons.mp h with rfl | hm
    · simp
    · have hne : key ≠ e.1 := fun he => hfresh (he ▸ List.mem_map_of_mem hm)
      obtain ⟨k, _⟩ := e
      rw [List.lookup_cons, beq_false_of_ne hne]
      exact ih hrest hm

namespace Roster

theorem get?_erase_self (roster : Roster) (key : AddonKey) : (roster.erase key).get? key = none :=
  lookup_filter_ne_self key roster.entries

theorem get?_erase_of_ne (roster : Roster) {key other : AddonKey} (h : other ≠ key) :
    (roster.erase key).get? other = roster.get? other :=
  lookup_filter_ne roster.entries h

theorem get?_insert_self (roster : Roster) (key : AddonKey) (handle : Handle) :
    (roster.insert key handle).2.get? key = some handle := by
  simp [Roster.insert, Roster.get?]

theorem get?_insert_of_ne (roster : Roster) {key other : AddonKey} (handle : Handle)
    (h : other ≠ key) : (roster.insert key handle).2.get? other = roster.get? other := by
  have hne : (other == key) = false := beq_false_of_ne h
  simp only [Roster.insert, Roster.get?, List.lookup_cons, hne]
  exact get?_erase_of_ne roster h

theorem mem_of_get? {roster : Roster} {key : AddonKey} {handle : Handle}
    (h : roster.get? key = some handle) : (key, handle) ∈ roster.entries :=
  mem_of_lookup h

theorem nodup_keys_erase {roster : Roster} (key : AddonKey) (h : roster.keys.Nodup) :
    (roster.erase key).keys.Nodup :=
  h.sublist (List.filter_sublist.map Prod.fst)

theorem nodup_keys_insert {roster : Roster} (key : AddonKey) (handle : Handle)
    (h : roster.keys.Nodup) : (roster.insert key handle).2.keys.Nodup := by
  refine List.nodup_cons.mpr ⟨?_, nodup_keys_erase key h⟩
  intro hm
  obtain ⟨e, he, hk⟩ := List.mem_map.mp hm
  have hne := (List.mem_filter.mp he).2
  simp [hk] at hne

theorem mem_entries_erase {roster : Roster} {key : AddonKey} {e : AddonKey × Handle}
    (h : e ∈ (roster.erase key).entries) : e ∈ roster.entries ∧ e.1 ≠ key := by
  simpa [Roster.erase] using h

theorem mem_entries_insert {roster : Roster} {key : AddonKey} {handle : Handle}
    {e : AddonKey × Handle} (h : e ∈ (roster.insert key handle).2.entries) :
    e = (key, handle) ∨ e ∈ roster.entries := by
  rcases List.mem_cons.mp h with he | hm
  · exact Or.inl he
  · exact Or.inr (mem_entries_erase hm).1

end Roster

theorem Desk.lookup_putRetry_self (key : String) (retry : Retry)
    (retries : List (String × Retry)) :
    (Desk.putRetry key retry retries).lookup key = some retry := by
  simp [Desk.putRetry]

theorem Desk.lookup_putRetry_of_ne {key other : String} (retry : Retry)
    (retries : List (String × Retry)) (h : other ≠ key) :
    (Desk.putRetry key retry retries).lookup other = retries.lookup other := by
  have hne : (other == key) = false := beq_false_of_ne h
  simp only [Desk.putRetry, List.lookup_cons, hne]
  exact lookup_filter_ne retries h

end AddonWatch

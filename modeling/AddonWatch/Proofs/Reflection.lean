import AddonWatch.Cluster.Subscription
import Mathlib.Data.List.Induction

namespace AddonWatch.Cluster

namespace Replica

variable {α : Type} {format : Format α} {name other : ObjectName}

theorem find?_insertEntry_self (name : ObjectName) (object : α)
    (entries : List (ObjectName × α)) :
    (insertEntry name object entries).find? (fun entry => entry.1 = name) =
      some (name, object) := by
  induction entries with
  | nil => simp [insertEntry]
  | cons entry rest ih =>
    obtain ⟨first, found⟩ := entry
    unfold insertEntry
    split
    next => simp
    next hne =>
      split
      next => simp
      next => simpa [hne] using ih

theorem find?_insertEntry_of_ne (object : α) (entries : List (ObjectName × α))
    (h : other ≠ name) :
    (insertEntry name object entries).find? (fun entry => entry.1 = other) =
      entries.find? fun entry => entry.1 = other := by
  induction entries with
  | nil => simp [insertEntry, h.symm]
  | cons entry rest ih =>
    obtain ⟨first, found⟩ := entry
    unfold insertEntry
    split
    next he => simp [he, h.symm]
    next =>
      split
      next => simp [h.symm]
      next => simp only [List.find?_cons, ih]

theorem lookup_insert_self (replica : Replica α) (object : α) :
    (replica.insert format object).lookup (format.objectName object) = some object := by
  simp [lookup, insert, find?_insertEntry_self]

theorem lookup_insert_of_ne (replica : Replica α) {object : α}
    (h : format.objectName object ≠ name) :
    (replica.insert format object).lookup name = replica.lookup name := by
  simp only [lookup, insert, find?_insertEntry_of_ne object replica.entries h.symm]

theorem lookup_erase_self (replica : Replica α) (name : ObjectName) :
    (replica.erase name).lookup name = none := by
  simp [lookup, erase]

theorem lookup_erase_of_ne (replica : Replica α) (h : name ≠ other) :
    (replica.erase name).lookup other = replica.lookup other := by
  simp only [lookup, erase, List.find?_filter]
  congr 2
  funext entry
  by_cases he : entry.1 = other <;> simp [he, h.symm]

/-- Of several objects with a name the last one is found under it. -/
theorem lookup_foldl_insert (replica : Replica α) (objects : List α) (name : ObjectName) :
    (objects.foldl (insert format) replica).lookup name =
      (objects.reverse.find? fun object => format.objectName object = name).or
        (replica.lookup name) := by
  induction objects generalizing replica with
  | nil => simp
  | cons object rest ih =>
    rw [List.foldl_cons, ih, List.reverse_cons, List.find?_append, Option.or_assoc]
    by_cases h : format.objectName object = name
    · subst h
      simp [lookup_insert_self]
    · simp [lookup_insert_of_ne replica h, h]

end Replica

/-- The name is not among those that everything is replaced by. -/
def News.Drops {α : Type} (format : Format α) (name : ObjectName) : News α → Prop
  | .replaced objects => ∀ object ∈ objects, format.objectName object ≠ name
  | _ => False

/-- What has been told of a name the last time. -/
def lastTold (sightings : List Sighting) (name : ObjectName) : Option Bool :=
  (sightings.reverse.find? fun sighting => sighting.object = name).map Sighting.present

namespace News

variable {α : Type} {format : Format α} {news : News α} {name : ObjectName}

/-- Whatever the copy was like, a sighting tells whether the object is in it afterwards. -/
theorem present_of_mem_sightings (replica : Replica α) {sighting : Sighting}
    (h : sighting ∈ news.sightings format) :
    sighting.present = ((replica.apply format news).lookup sighting.object).isSome := by
  cases news with
  | put object =>
    obtain rfl := List.mem_singleton.mp h
    simp [Replica.apply, Replica.lookup_insert_self]
  | removed object =>
    obtain rfl := List.mem_singleton.mp h
    simp [Replica.apply, Replica.lookup_erase_self]
  | replaced objects =>
    obtain ⟨object, hm, rfl⟩ := List.mem_map.mp h
    have hfound : (objects.reverse.find? fun found =>
        format.objectName found = format.objectName object).isSome = true :=
      List.find?_isSome.mpr ⟨object, List.mem_reverse.mpr hm, by simp⟩
    simp only [Replica.apply, Replica.lookup_foldl_insert, Option.isSome_or, hfound,
      Bool.true_or]

/-- What nobody is told of has stayed as it was, unless it was dropped. -/
theorem lookup_apply_of_untold (replica : Replica α)
    (h : ∀ sighting ∈ news.sightings format, sighting.object ≠ name)
    (hd : ¬news.Drops format name) :
    (replica.apply format news).lookup name = replica.lookup name := by
  cases news with
  | put object =>
    have hne : format.objectName object ≠ name := h _ (List.mem_singleton_self _)
    exact replica.lookup_insert_of_ne hne
  | removed object =>
    have hne : format.objectName object ≠ name := h _ (List.mem_singleton_self _)
    exact replica.lookup_erase_of_ne hne
  | replaced objects =>
    refine absurd (fun object hm => ?_) hd
    exact h ⟨format.objectName object, true⟩ (List.mem_map_of_mem hm)

theorem Drops.untold (h : news.Drops format name) :
    ∀ sighting ∈ news.sightings format, sighting.object ≠ name := by
  cases news with
  | replaced objects =>
    intro sighting hm
    obtain ⟨object, ho, rfl⟩ := List.mem_map.mp hm
    exact h object ho
  | _ => exact h.elim

theorem Drops.lookup (h : news.Drops format name) (replica : Replica α) :
    (replica.apply format news).lookup name = none := by
  cases news with
  | replaced objects =>
    have hnone : (objects.reverse.find? fun object => format.objectName object = name) = none := by
      apply List.find?_eq_none.mpr
      intro object hm
      simpa using h object (List.mem_reverse.mp hm)
    simp only [Replica.apply, Replica.lookup_foldl_insert, hnone]
    rfl
  | _ => exact h.elim

/-- What the copy holds was told of, the last time, as being there. -/
theorem lastTold_of_lookup (told : List (News α)) (name : ObjectName)
    (h : ((told.foldl (Replica.apply format) {}).lookup name).isSome = true) :
    lastTold (told.flatMap (News.sightings format)) name = some true := by
  induction told using List.reverseRecOn with
  | nil => cases h
  | append_singleton earlier news ih =>
    rw [List.foldl_append, List.foldl_cons, List.foldl_nil] at h
    unfold lastTold at ih ⊢
    rw [List.flatMap_append, List.reverse_append, List.find?_append]
    cases hlast : (news.sightings format).reverse.find? fun sighting => sighting.object = name with
    | some sighting =>
      have hm := List.mem_reverse.mp (List.mem_of_find?_eq_some hlast)
      have hname : sighting.object = name := by simpa using List.find?_some hlast
      have hpresent := present_of_mem_sightings (earlier.foldl (Replica.apply format) {}) hm
      rw [hname, h] at hpresent
      simp [hlast, hpresent]
    | none =>
      have huntold : ∀ sighting ∈ news.sightings format, sighting.object ≠ name := by
        intro sighting hm
        simpa using List.find?_eq_none.mp hlast sighting (List.mem_reverse.mpr hm)
      have hkept : ¬news.Drops format name := by
        intro hd
        rw [hd.lookup] at h
        cases h
      rw [lookup_apply_of_untold _ huntold hkept] at h
      simpa [hlast] using ih h

end News

/-- The sighting that is heard, if it is one. -/
def Heard.sighting? : Heard → Option Sighting
  | .item (.ok sighting) => some sighting
  | _ => none

namespace Subscription

variable {α : Type} {s s' : Subscription α} {x y : Exchange}

/-- Nothing reaches the copy but news, and each sighting of theirs is heard once, in order. -/
theorem next_accounts {heard : Heard} (h : s.next x = (heard, s', y)) :
    s'.format = s.format ∧ ∃ told : List (News α),
      s'.replica = told.foldl (Replica.apply s.format) s.replica ∧
      s.pending ++ told.flatMap (News.sightings s.format) =
        heard.sighting?.toList ++ s'.pending := by
  fun_induction next s x with
  | case1 s x sighting rest hp =>
    cases h
    exact ⟨rfl, [], rfl, by simp [hp, Heard.sighting?]⟩
  | case2 s x hp phase z hstep =>
    cases h
    exact ⟨rfl, [], rfl, by simp [hp, Heard.sighting?]⟩
  | case3 s x hp fault phase z hstep =>
    cases h
    exact ⟨rfl, [], rfl, by simp [hp, Heard.sighting?]⟩
  | case4 s x hp phase z hstep hless ih =>
    exact ih h
  | case5 s x hp news phase z hstep hless hnamed ih =>
    obtain ⟨hformat, told, hcopy, hheard⟩ := ih h
    refine ⟨hformat, news :: told, hcopy, ?_⟩
    rw [hp, List.nil_append, List.flatMap_cons]
    exact hheard
  | case6 s x hp news phase z hstep hless hnamed =>
    cases h
    exact ⟨rfl, [], rfl, by simp [hp, Heard.sighting?]⟩

/-- What a reader hears who takes one item after the other. -/
inductive Reads (first : Subscription α) (x : Exchange) :
    List Heard → Subscription α → Exchange → Prop
  | start : Reads first x [] first x
  | next (log : List Heard) (s s' : Subscription α) (y z : Exchange) (heard : Heard)
      (h : Reads first x log s y) (hnext : s.next y = (heard, s', z)) :
      Reads first x (log ++ [heard]) s' z

/-- The copy is what the news have made of it, and their sightings are what was heard and what is
still to be. -/
theorem Reads.accounts {log : List Heard} (h : s.Reads x log s' y) :
    s'.format = s.format ∧ ∃ told : List (News α),
      s'.replica = told.foldl (Replica.apply s.format) s.replica ∧
      s.pending ++ told.flatMap (News.sightings s.format) =
        log.filterMap Heard.sighting? ++ s'.pending := by
  induction h with
  | start => exact ⟨rfl, [], rfl, by simp⟩
  | next log mid last y z heard h hnext ih =>
    obtain ⟨hformat, told, hcopy, hheard⟩ := ih
    obtain ⟨hformat', more, hcopy', hheard'⟩ := next_accounts hnext
    rw [hformat] at hformat' hcopy' hheard'
    refine ⟨hformat', told ++ more, ?_, ?_⟩
    · rw [hcopy', hcopy, List.foldl_append]
    · rw [List.flatMap_append, ← List.append_assoc, hheard, List.append_assoc, hheard',
        List.filterMap_append, List.append_assoc]
      cases hs : heard.sighting? <;> simp [hs]

end Subscription

namespace News

/-- Whatever the copy holds, and in every sequence of news: if a piece of news changes what stands
under a name and does not drop the name, its sightings tell of that name, and they tell whether it
is there afterwards. News that drop names do not tell of them. The reader of a subscription hears
the sightings of just the news that its copy is made of, in order; so what is in the copy of one
that has just been opened was told of, the last time, as being there. -/
theorem changes_told {α : Type} (format : Format α) :
    (∀ (content : Replica α) (earlier : List (News α)) (news : News α) (name : ObjectName),
      let before := earlier.foldl (Replica.apply format) content
      let after := before.apply format news
      (after.lookup name ≠ before.lookup name → ¬news.Drops format name →
        ∃ sighting ∈ news.sightings format, sighting.object = name) ∧
      (∀ sighting ∈ news.sightings format, sighting.object = name →
        sighting.present = (after.lookup name).isSome) ∧
      (news.Drops format name → after.lookup name = none ∧
        ∀ sighting ∈ news.sightings format, sighting.object ≠ name)) ∧
    ∀ (s s' : Subscription α) (x y : Exchange) (log : List Heard), s.format = format →
      s.Reads x log s' y → ∃ told : List (News α),
        s'.replica = told.foldl (Replica.apply format) s.replica ∧
        s.pending ++ told.flatMap (News.sightings format) =
          log.filterMap Heard.sighting? ++ s'.pending ∧
        (s.replica = {} → s.pending = [] → ∀ name, (s'.replica.lookup name).isSome = true →
          lastTold (log.filterMap Heard.sighting? ++ s'.pending) name = some true) := by
  refine ⟨fun content earlier news name => ⟨fun hne hkept => ?_, fun sighting hm hname => ?_,
    fun hd => ⟨hd.lookup _, hd.untold⟩⟩, fun s s' x y log hformat h => ?_⟩
  · by_contra huntold
    refine hne (News.lookup_apply_of_untold _ (fun sighting hm hname => ?_) hkept)
    exact huntold ⟨sighting, hm, hname⟩
  · rw [News.present_of_mem_sightings _ hm, hname]
  · subst hformat
    obtain ⟨-, told, hcopy, hheard⟩ := h.accounts
    refine ⟨told, hcopy, hheard, fun hempty hnone name hin => ?_⟩
    rw [hcopy, hempty] at hin
    rw [hnone, List.nil_append] at hheard
    rw [← hheard]
    exact News.lastTold_of_lookup told name hin

/-- An object that says its name and no more. -/
def bare (name : String) : Metadata :=
  { name := some name, ns := some "ns1" }

/-- A copy that has been listed. -/
def crowd : Replica Metadata :=
  Replica.apply Format.objects {} (replaced [bare "a1", bare "a2"])

/-- A piece of news that removes an object tells of it, also after the copy was replaced. -/
theorem changes_told_of_removed :
    ∃ sighting ∈ (removed (bare "a1")).sightings Format.objects,
      sighting.object = ⟨some "ns1", "a1"⟩ ∧ sighting.present = false := by
  have hchanged : ((crowd.apply Format.objects (removed (bare "a1"))).lookup
      ⟨some "ns1", "a1"⟩).isSome ≠ (crowd.lookup ⟨some "ns1", "a1"⟩).isSome := by decide
  obtain ⟨htold, hpresent, -⟩ := (changes_told Format.objects).1 {}
    [replaced [bare "a1", bare "a2"]] (removed (bare "a1")) ⟨some "ns1", "a1"⟩
  obtain ⟨sighting, hm, hname⟩ := htold (fun he => hchanged (congrArg Option.isSome he)) id
  exact ⟨sighting, hm, hname, hpresent sighting hm hname⟩

/-- A list that an object is missing from takes it out of the copy, and nobody is told. -/
theorem disappearance_untold :
    (crowd.lookup ⟨some "ns1", "a1"⟩).isSome = true ∧
      ((crowd.apply Format.objects (replaced [bare "a2"])).lookup
        ⟨some "ns1", "a1"⟩).isSome = false ∧
      ∀ sighting ∈ (replaced [bare "a2"]).sightings Format.objects,
        sighting.object ≠ ⟨some "ns1", "a1"⟩ :=
  ⟨by decide, by decide, by decide⟩

end News

end AddonWatch.Cluster

import AddonWatch.Cluster.StatusWrite
import AddonWatch.Proofs.Fields
import AddonWatch.Proofs.Recording

namespace AddonWatch

namespace Json

variable {document value : Json}

theorem expect_ok {α : Type} {read : Json → Option α} {a : α}
    (h : document.expect read = .ok a) : read document = some a := by
  unfold expect at h
  split at h
  next hread =>
    cases h
    exact hread
  next =>
    unfold refuse at h
    split at h <;> cases h

theorem eq_str_of_text {s : String} (h : document.text = .ok s) : document = .str s := by
  have hs := expect_ok h
  unfold text? at hs
  split at hs <;> cases hs
  rfl

theorem eq_encode_of_generation {g : Generation} (h : document.generation = .ok g) :
    document = g.encode := by
  obtain ⟨n, hn, hg⟩ := Option.bind_eq_some_iff.mp (expect_ok h)
  unfold int? at hn
  split at hn <;> cases hn
  unfold Generation.ofInt? at hg
  split at hg <;> cases hg
  rfl

end Json

namespace Reference

variable {found found' : Reference} {m : String × Json} {name : String}

theorem get_encode (reference : Reference) (name : String) :
    reference.encode.get name =
      if name = "lastObservedGeneration" then some reference.observed.encode
      else if name = "name" then some (.str reference.name)
      else if name = "namespace" then some (.str reference.ns)
      else if name = "resource" then some (.str reference.resource)
      else if name = "version" then some (.str reference.version)
      else if name = "group" then some (.str reference.group)
      else none := by
  simp only [encode, Json.get, Json.lastMember, List.reverse_cons, List.reverse_nil,
    List.nil_append, List.cons_append, List.find?_cons, List.find?_nil, eq_comm (b := name)]
  repeat' split
  all_goals simp_all

/-- Where nothing is known an empty text is written. -/
theorem get_encode_empty (hname : name ∈ fieldNames) (h : name ≠ "lastObservedGeneration") :
    ({} : Reference).encode.get name = some (.str "") := by
  rw [get_encode, if_neg h]
  simp only [fieldNames, List.mem_cons, List.not_mem_nil, or_false] at hname
  rcases hname with rfl | rfl | rfl | rfl | rfl | rfl
  all_goals first | rfl | exact absurd rfl h

/-- The generation is written under its own name only. -/
theorem get_encode_observed (reference : Reference) (observed : Generation)
    (h : name ≠ "lastObservedGeneration") :
    { reference with observed := observed }.encode.get name = reference.encode.get name := by
  rw [get_encode, get_encode, if_neg h, if_neg h]

theorem name_of_mem_encode {reference : Reference} {part : Json}
    (h : (name, part) ∈ reference.encode.members) : name ∈ fieldNames :=
  List.mem_map_of_mem (f := Prod.fst) h

/-- What is taken over under a name is written back under that name as it was. -/
theorem encode_put (h : found.put m = .ok found') (hname : name ∈ fieldNames) :
    found'.encode.get name = if m.1 = name then some m.2 else found.encode.get name := by
  simp only [get_encode]
  unfold put at h
  split at h
  case h_6 hn =>
    obtain ⟨g, hv, rfl⟩ := map_ok_iff.mp h
    rw [Json.eq_encode_of_generation hv, hn]
    split <;> simp_all [eq_comm]
  case h_7 =>
    obtain ⟨-, -, rfl⟩ := map_ok_iff.mp h
    have hne : m.1 ≠ name := by
      rintro rfl
      simp_all [fieldNames]
    rw [if_neg hne]
  all_goals
    next hn =>
      obtain ⟨s, hv, rfl⟩ := map_ok_iff.mp h
      rw [Json.eq_str_of_text hv, hn]
      grind

/-- The fields that a reference is decoded from are those that it is encoded to; the others are
written as they are by default. -/
theorem fields_of_decode {document : Json} {reference : Reference}
    (h : decode document = .ok reference) (hname : name ∈ fieldNames) :
    (∀ v, (name, v) ∈ document.fields fieldNames → reference.encode.get name = some v) ∧
      ((∀ m ∈ document.fields fieldNames, m.1 ≠ name) →
        reference.encode.get name = ({} : Reference).encode.get name) := by
  obtain ⟨⟨found, given⟩, htake, h⟩ := bind_ok_iff.mp h
  obtain ⟨-, -, h⟩ := bind_ok_iff.mp h
  cases h
  obtain ⟨hgiven, habsent⟩ := Json.view_of_takeFields (fun r : Reference => r.encode.get name)
    (fun v => .ok (some v)) (by decide) hname
    (fun b b' v hput => by rw [encode_put hput hname, if_pos rfl])
    (fun b b' m hne hput => by rw [encode_put hput hname, if_neg hne]) htake
  exact ⟨fun v hv => (Except.ok.inj (hgiven v hv)).symm, habsent⟩

section Rewriting

variable {document value : Json} {reference : Reference} {path : List String}

/-- What is in the fields of a reference is also in what is written, but for the generation. -/
theorem holds_encode (observed : Generation) (h : decode document = .ok reference)
    (hname : name ∈ fieldNames) (hout : name :: path ≠ ["lastObservedGeneration"])
    (hholds : (document.named fieldNames).Holds (name :: path) value) :
    { reference with observed := observed }.encode.Holds (name :: path) value := by
  obtain ⟨part, hm, hpart⟩ := Json.holds_cons_iff.mp hholds
  have hget := (fields_of_decode h hname).1 part hm
  by_cases hne : name = "lastObservedGeneration"
  · rw [get_encode, if_pos hne] at hget
    cases hget
    cases path with
    | nil => exact absurd (congrArg (· :: []) hne) hout
    | cons n rest =>
      obtain ⟨inner, hinner, -⟩ := Json.holds_cons_iff.mp hpart
      cases hinner
  · have hsent := (get_encode_observed reference observed hne).trans hget
    exact Json.holds_cons_iff.mpr ⟨part, Json.mem_members_of_get hsent, hpart⟩

end Rewriting

end Reference

namespace Status

variable {document served value : Json} {status : Status} {reference : Reference}
  {path : List String}

/-- The reference that has been found is the one that stands under its name. -/
theorem reference_of_decode (h : decode document = .ok status)
    (hr : status.reference = some reference) :
    (∃ served, ("configReference", served) ∈ document.fields ["configReference"]) ∧
      ∀ served, ("configReference", served) ∈ document.fields ["configReference"] →
        Reference.decode served = .ok reference := by
  obtain ⟨⟨found, given⟩, htake, rfl⟩ := map_ok_iff.mp h
  refine Json.found_of_takeFields Status.reference _ (by decide) (by decide)
    (fun b b' v hput => ?_) (fun b b' m hne hput => ?_) htake rfl hr
  · obtain ⟨r, hread, rfl⟩ := map_ok_iff.mp hput
    exact hread
  · unfold put at hput
    split at hput
    next heq => exact absurd heq hne
    next =>
      obtain ⟨-, -, rfl⟩ := map_ok_iff.mp hput
      rfl

/-- The served status with its fields, and those of its reference, under their names. -/
def named (document : Json) : Json :=
  .obj ((document.fields ["configReference"]).map fun m =>
    if m.1 = "configReference" then (m.1, m.2.named Reference.fieldNames) else m)

/-- Whatever stands in the one status stands in the other, at any depth, unless the observed
generation is part of it. -/
def IsKept (served sent : Json) : Prop :=
  ∀ path value, ¬path <+: ["configReference", "lastObservedGeneration"] →
    served.Holds path value → sent.Holds path value

/-- Nothing is there that the decoder has no name for. -/
def IsKnown (document : Json) : Prop :=
  (∀ m ∈ document.fields ["configReference"], m.1 = "configReference") ∧
    ∀ served, ("configReference", served) ∈ document.fields ["configReference"] →
      ∀ m ∈ served.fields Reference.fieldNames, m.1 ∈ Reference.fieldNames

theorem holds_encode_iff {n : String} :
    (encode ⟨some reference⟩).Holds (n :: path) value ↔
      n = "configReference" ∧ reference.encode.Holds path value := by
  rw [Json.holds_cons_iff]
  constructor
  · rintro ⟨part, hm, hholds⟩
    cases List.mem_singleton.mp hm
    exact ⟨rfl, hholds⟩
  · rintro ⟨rfl, hholds⟩
    exact ⟨reference.encode, List.mem_singleton_self _, hholds⟩

theorem holds_named_iff {n : String} :
    (named document).Holds (n :: path) value ↔
      ∃ served, (n, served) ∈ document.fields ["configReference"] ∧
        (if n = "configReference" then served.named Reference.fieldNames else served).Holds
          path value := by
  rw [Json.holds_cons_iff]
  constructor
  · rintro ⟨part, hm, hholds⟩
    obtain ⟨⟨n', served⟩, hmem, heq⟩ := List.mem_map.mp hm
    dsimp only at heq
    split at heq
    next hn =>
      cases heq
      exact ⟨served, hmem, by rwa [if_pos hn]⟩
    next hn =>
      cases heq
      exact ⟨part, hmem, by rwa [if_neg hn]⟩
  · rintro ⟨served, hm, hholds⟩
    refine ⟨_, List.mem_map.mpr ⟨_, hm, ?_⟩, hholds⟩
    dsimp only
    split <;> rfl

/-- The status that is written keeps what was served exactly if the decoder has a name for all of
it. -/
theorem isKept_iff (observed : Generation) (h : decode document = .ok status)
    (hr : status.reference = some reference) :
    IsKept (named document) (encode ⟨some { reference with observed := observed }⟩) ↔
      IsKnown document := by
  obtain ⟨-, hserved⟩ := reference_of_decode h hr
  constructor
  · intro hkept
    constructor
    · intro m hm
      by_contra hne
      have hholds : (named document).Holds [m.1] m.2 :=
        holds_named_iff.mpr ⟨m.2, hm, by rw [if_neg hne]; exact .here m.2⟩
      have hout : ¬[m.1] <+: ["configReference", "lastObservedGeneration"] := by simp [hne]
      exact hne (holds_encode_iff.mp (hkept _ _ hout hholds)).1
    · intro served hs m hm
      by_contra hne
      have hinside : (served.named Reference.fieldNames).Holds [m.1] m.2 :=
        Json.holds_cons_iff.mpr ⟨m.2, hm, .here m.2⟩
      have hholds : (named document).Holds ["configReference", m.1] m.2 :=
        holds_named_iff.mpr ⟨served, hs, hinside⟩
      have hout : ¬["configReference", m.1] <+: ["configReference", "lastObservedGeneration"] := by
        intro hin
        have hlast : m.1 = "lastObservedGeneration" := by simpa using hin
        exact hne (hlast ▸ by decide)
      obtain ⟨-, hsent⟩ := holds_encode_iff.mp (hkept _ _ hout hholds)
      obtain ⟨part, hpart, -⟩ := Json.holds_cons_iff.mp hsent
      exact hne (Reference.name_of_mem_encode hpart)
  · rintro ⟨honly, hknown⟩ path value hout hholds
    cases path with
    | nil => exact absurd List.nil_prefix hout
    | cons n rest =>
      obtain ⟨served, hm, hrest⟩ := holds_named_iff.mp hholds
      obtain rfl : n = "configReference" := honly _ hm
      rw [if_pos rfl] at hrest
      refine holds_encode_iff.mpr ⟨rfl, ?_⟩
      cases rest with
      | nil => exact absurd (by simp) hout
      | cons field rest =>
        obtain ⟨part, hpart, -⟩ := Json.holds_cons_iff.mp hrest
        have hfield := hknown served hm _ hpart
        refine Reference.holds_encode observed (hserved served hm) hfield (fun he => ?_) hrest
        rw [he] at hout
        exact hout List.prefix_rfl

end Status

namespace Addon

variable {document : Json} {addon : Addon} {status : Status}

/-- The status that has been found is the one that stands under its name. -/
theorem status_of_decode (h : decode document = .ok addon) (hs : addon.status = some status) :
    (∃ served, ("status", served) ∈ document.fields ["metadata", "spec", "status"]) ∧
      ∀ served, ("status", served) ∈ document.fields ["metadata", "spec", "status"] →
        Status.decode served = .ok status := by
  obtain ⟨⟨found, given⟩, htake, h⟩ := bind_ok_iff.mp h
  obtain ⟨-, -, h⟩ := bind_ok_iff.mp h
  have hfound : found = addon := by
    dsimp only at h
    split at h
    · obtain ⟨-, -, h⟩ := bind_ok_iff.mp h
      exact Except.ok.inj h
    · exact Except.ok.inj h
  subst hfound
  refine Json.found_of_takeFields Addon.status _ (by decide) (by decide)
    (fun b b' v hput => ?_) (fun b b' m hne hput => ?_) htake rfl hs
  · obtain ⟨r, hread, rfl⟩ := map_ok_iff.mp hput
    exact hread
  · unfold put at hput
    split at hput
    next =>
      obtain ⟨-, -, rfl⟩ := map_ok_iff.mp hput
      rfl
    next =>
      obtain ⟨-, -, rfl⟩ := map_ok_iff.mp hput
      rfl
    next heq => exact absurd heq hne
    next =>
      obtain ⟨-, -, rfl⟩ := map_ok_iff.mp hput
      rfl

/-- The request with which a status is written is the only one, and is made of the draft. -/
theorem requests_of_writeStatus (addon : Addon) (x : Cluster.Exchange) :
    (addon.writeStatus x).2.requests = x.requests ++ addon.statusDraft.request?.toList := by
  unfold writeStatus Cluster.Exchange.request Cluster.Exchange.send
  cases hr : addon.statusDraft.request? with
  | none => simp
  | some request =>
    cases x.responses with
    | nil => simp
    | cons response rest => cases response <;> simp

theorem request_of_statusDraft {request : Cluster.Request}
    (h : addon.statusDraft.request? = some request) :
    request.method = .put ∧ request.body = some addon.encode := by
  obtain ⟨address, -, rfl⟩ := Option.map_eq_some_iff.mp h
  exact ⟨rfl, rfl⟩

theorem get_status_encode (addon : Addon) :
    addon.encode.get "status" = addon.status.map Status.encode := by
  cases hn : addon.status with
  | none => simp [encode, hn, Json.record, Json.get, Json.lastMember]
  | some status => simp [encode, hn, Json.record, Json.get, Json.lastMember]

/-- The one request that writes an addon which was read off that document replaces its status by one
that holds nothing but the reference. In this the generation is new, each other field is what was
served under its name, and an empty text if nothing was. So all that was served is kept if and only
if there was nothing in it that the decoder has no name for. -/
theorem status_written (document : Json) (a : Assignment) (name : String) (site next : Site)
    (w : Write) (x : Cluster.Exchange) (hdecode : decode document = .ok addon)
    (hheld : site.hub.addon? a.key.objectName = some addon)
    (hwrite : a.observe name site = (next, .inl w)) :
    ∃ sent : Reference, sent.observed = w.observed ∧
      (w.addon.writeStatus x).2.requests = x.requests ++ w.addon.statusDraft.request?.toList ∧
      (∀ request, w.addon.statusDraft.request? = some request →
        request.body.bind (·.get "status") = some (Status.encode ⟨some sent⟩)) ∧
      (∃ status served, ("status", status) ∈ document.fields ["metadata", "spec", "status"] ∧
        ("configReference", served) ∈ status.fields ["configReference"]) ∧
      ∀ status served, ("status", status) ∈ document.fields ["metadata", "spec", "status"] →
        ("configReference", served) ∈ status.fields ["configReference"] →
        (∀ field ∈ Reference.fieldNames, field ≠ "lastObservedGeneration" →
          (∀ v, (field, v) ∈ served.fields Reference.fieldNames →
            sent.encode.get field = some v) ∧
          ((∀ m ∈ served.fields Reference.fieldNames, m.1 ≠ field) →
            sent.encode.get field = some (.str ""))) ∧
        (Status.IsKept (Status.named status) (Status.encode ⟨some sent⟩) ↔
          Status.IsKnown status) := by
  obtain ⟨-, -, hplan, -⟩ := Assignment.observe_write hwrite
  obtain ⟨config, old, reference, -, hold, hdraft, hr, -⟩ := Assignment.plan_write hplan
  obtain rfl : addon = old := Option.some.inj (hheld.symm.trans hold)
  obtain ⟨found, hs, hfound, hwith⟩ := withObserved_eq hr w.observed
  obtain ⟨⟨status, hstatus⟩, hstatuses⟩ := status_of_decode hdecode hs
  obtain ⟨⟨served, hserved⟩, -⟩ := Status.reference_of_decode (hstatuses status hstatus) hfound
  refine ⟨{ reference with observed := w.observed }, rfl, requests_of_writeStatus _ x,
    fun request hrequest => ?_, ⟨status, served, hstatus, hserved⟩, fun status served hm hin =>
      ⟨fun field hf hne => ?_, Status.isKept_iff w.observed (hstatuses status hm) hfound⟩⟩
  · obtain ⟨-, hbody⟩ := request_of_statusDraft hrequest
    rw [hbody, Option.bind_some, get_status_encode, hdraft, hwith]
    rfl
  · obtain ⟨-, hreferences⟩ := Status.reference_of_decode (hstatuses status hm) hfound
    obtain ⟨hgiven, habsent⟩ := Reference.fields_of_decode (hreferences served hin) hf
    rw [Reference.get_encode_observed reference w.observed hne]
    refine ⟨hgiven, fun hnone => (habsent hnone).trans ?_⟩
    exact Reference.get_encode_empty hf hne

/-- An addon as it is served, with those members in its status beside the reference. -/
def serving (others : List (String × Json)) : Json :=
  .obj [
    ("metadata", .obj [("name", .str "a"), ("namespace", .str "ns")]),
    ("spec", .obj []),
    ("status", .obj (others ++ [("configReference", .arr [.str "cfg.test", .str "v1", .str "tests",
      .str "ns", .str "x", .int 0])]))]

def available : Json :=
  .arr [.obj [("type", .str "Available"), ("status", .str "True")]]

/-- What others say of an addon in its status is gone from what a watcher puts in its place. -/
theorem conditions_dropped :
    decode (serving [("conditions", available)]) = .ok (Supervision.specimen "a" "x") ∧
    Assignment.behind.hub.addon? Assignment.lagging.key.objectName =
      some (Supervision.specimen "a" "x") ∧
    ∃ (next : Site) (w : Write) (status sent : Json),
      Assignment.lagging.observe "x" Assignment.behind = (next, .inl w) ∧
      ("status", status) ∈
        (serving [("conditions", available)]).fields ["metadata", "spec", "status"] ∧
      w.addon.encode.get "status" = some sent ∧
      status.Holds ["conditions"] available ∧ ¬sent.Holds ["conditions"] available := by
  refine ⟨rfl, rfl, _, _, _, _, rfl, List.mem_of_getElem? (i := 2) rfl, rfl, ?_, ?_⟩
  · exact .inside _ _ _ _ _ List.mem_cons_self (.here _)
  · intro h
    obtain ⟨hname, -⟩ := Status.holds_encode_iff.mp h
    exact absurd hname (by decide)

/-- Where nobody else has said anything the status is kept, though it was served as a bare list. -/
theorem status_written_alone :
    decode (serving []) = .ok (Supervision.specimen "a" "x") ∧
    ∃ (status : Json) (sent : Reference), sent.observed.val = 2 ∧
      ("status", status) ∈ (serving []).fields ["metadata", "spec", "status"] ∧
      Status.IsKept (Status.named status) (Status.encode ⟨some sent⟩) := by
  have hdecode : decode (serving []) = .ok (Supervision.specimen "a" "x") := rfl
  obtain ⟨sent, hsent, -, -, -, hall⟩ :=
    status_written (serving []) Assignment.lagging "x" Assignment.behind _ _ {} hdecode rfl rfl
  have hstatus := List.mem_of_getElem? (l := (serving []).fields ["metadata", "spec", "status"])
    (i := 2) rfl
  obtain ⟨-, hkept⟩ := hall _ _ hstatus List.mem_cons_self
  refine ⟨hdecode, _, sent, ?_, hstatus, hkept.mpr ⟨?_, ?_⟩⟩
  · rw [hsent]
    rfl
  · decide
  · intro served hm
    cases List.mem_singleton.mp hm
    decide

end Addon

end AddonWatch

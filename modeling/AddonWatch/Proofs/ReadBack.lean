import AddonWatch.Proofs.Preservation

namespace AddonWatch

namespace Json

theorem generation_encode (g : Generation) : g.encode.generation = .ok g := by
  have hbounds : -9223372036854775808 ≤ g.val ∧ g.val ≤ 9223372036854775807 := ⟨g.least, g.most⟩
  have hread : generation? g.encode = some g := by
    simp [generation?, Generation.encode, int?, Generation.ofInt?, hbounds]
  simp [generation, expect, hread]

/-- What is there is not taken for absent, unless it is null. -/
theorem optional_ok {α : Type} {read : Json → Except Flaw α} {document : Json} {a : α}
    (hnull : document ≠ .null) (h : read document = .ok a) :
    document.optional read = .ok (some a) := by
  unfold optional
  split
  next => exact absurd rfl hnull
  next =>
    rw [h]
    rfl

section TakingFields

variable {β : Type} {put : β → String × Json → Except Flaw β}
  {start mid found : β} {m : String × Json} {members : List (String × Json)}

theorem takeFields_obj (names : List String) (honce : hasRepeated names members = false)
    (h : members.foldlM put start = .ok found) :
    (Json.obj members).takeFields names put start = .ok (found, members.map (·.1)) := by
  simp only [takeFields, honce, Bool.false_eq_true, if_false, h]
  rfl

theorem foldlM_put (hm : put start m = .ok mid) (h : members.foldlM put mid = .ok found) :
    (m :: members).foldlM put start = .ok found := by
  rw [List.foldlM_cons, hm]
  exact h

end TakingFields

end Json

/-- A reference is written with all its fields, so that none is left to a default. -/
theorem Reference.decode_encode (reference : Reference) :
    decode reference.encode = .ok reference := by
  have hobserved : put { reference with observed := .zero }
      ("lastObservedGeneration", reference.observed.encode) = .ok reference :=
    map_ok_iff.mpr ⟨reference.observed, Json.generation_encode reference.observed, rfl⟩
  have htake : reference.encode.takeFields fieldNames put {} = .ok (reference, fieldNames) := by
    apply Json.takeFields_obj _ rfl
    apply Json.foldlM_put (m := ("group", _)) rfl
    apply Json.foldlM_put (m := ("version", _)) rfl
    apply Json.foldlM_put (m := ("resource", _)) rfl
    apply Json.foldlM_put (m := ("namespace", _)) rfl
    apply Json.foldlM_put (m := ("name", _)) rfl
    exact Json.foldlM_put hobserved rfl
  exact bind_ok_iff.mpr ⟨_, htake, rfl⟩

theorem Status.decode_encode (status : Status) : decode status.encode = .ok status := by
  obtain ⟨reference?⟩ := status
  cases reference? with
  | none => rfl
  | some reference =>
    have hread := Json.optional_ok (by simp [Reference.encode]) reference.decode_encode
    have hput : put {} ("configReference", reference.encode) = .ok ⟨some reference⟩ :=
      map_ok_iff.mpr ⟨_, hread, rfl⟩
    have htake : (encode ⟨some reference⟩).takeFields ["configReference"] put {} =
        .ok (⟨some reference⟩, ["configReference"]) :=
      Json.takeFields_obj _ rfl (Json.foldlM_put hput rfl)
    exact map_ok_iff.mpr ⟨_, htake, rfl⟩

namespace Addon

theorem decodeSpec_encode (installNs : Option String) :
    decodeSpec (Json.record [("installNamespace", installNs.map .str)]) = .ok installNs := by
  cases installNs <;> rfl

/-- An addon is the same after it was written and read, if its metadata is. -/
theorem decode_encode {addon : Addon}
    (h : Metadata.decode addon.metadata.encode = .ok addon.metadata) :
    decode addon.encode = .ok addon := by
  obtain ⟨metadata, installNs, status?⟩ := addon
  have hmetadata : put {} ("metadata", metadata.encode) = .ok { metadata := metadata } :=
    map_ok_iff.mpr ⟨metadata, h, rfl⟩
  have hspec : put { metadata := metadata }
      ("spec", Json.record [("installNamespace", installNs.map .str)]) =
        .ok ⟨metadata, installNs, none⟩ :=
    map_ok_iff.mpr ⟨installNs, decodeSpec_encode installNs, rfl⟩
  have hhead (rest : List (String × Json)) {found : Addon}
      (hrest : rest.foldlM put ⟨metadata, installNs, none⟩ = .ok found) :
      ([("apiVersion", .str apiGroupVersion), ("kind", .str kind), ("metadata", metadata.encode),
        ("spec", Json.record [("installNamespace", installNs.map .str)])] ++ rest).foldlM put {} =
          .ok found := by
    apply Json.foldlM_put (m := ("apiVersion", _)) rfl
    apply Json.foldlM_put (m := ("kind", _)) rfl
    apply Json.foldlM_put hmetadata
    exact Json.foldlM_put hspec hrest
  cases status? with
  | none =>
    have htake := Json.takeFields_obj ["metadata", "spec", "status"] rfl
      (hhead [] rfl)
    exact bind_ok_iff.mpr ⟨_, htake, rfl⟩
  | some status =>
    have hread := Json.optional_ok (by simp [Status.encode, Json.record]) status.decode_encode
    have hstatus : put ⟨metadata, installNs, none⟩ ("status", status.encode) =
        .ok ⟨metadata, installNs, some status⟩ := map_ok_iff.mpr ⟨_, hread, rfl⟩
    have htake := Json.takeFields_obj ["metadata", "spec", "status"] rfl
      (hhead [_] (Json.foldlM_put hstatus rfl))
    exact bind_ok_iff.mpr ⟨_, htake, rfl⟩

/-- An addon whose metadata is the same after it was written and read is itself the same. So in
whatever form an addon was served, the document that it is written as stands for the same addon, and
what is told by the body of the request that writes its status is what was read: whose addon it is,
whether it is being deleted, its reference, and what a watcher should follow. -/
theorem survives_writing :
    (∀ addon : Addon, Metadata.decode addon.metadata.encode = .ok addon.metadata →
      decode addon.encode = .ok addon) ∧
    ∀ (document : Json) (addon : Addon), decode document = .ok addon →
      Metadata.decode addon.metadata.encode = .ok addon.metadata →
      decode addon.encode = decode document ∧
      ∀ request, addon.statusDraft.request? = some request → ∃ body back,
        request.body = some body ∧ decode body = .ok back ∧
        back.key = addon.key ∧ back.objectName = addon.objectName ∧
        back.isDeleting = addon.isDeleting ∧ back.reference = addon.reference ∧
        back.desired = addon.desired ∧
        back.desired.map Reference.fingerprint = addon.desired.map Reference.fingerprint := by
  refine ⟨fun addon h => decode_encode h, fun document addon hdecode h => ?_⟩
  have hback := decode_encode h
  refine ⟨hback.trans hdecode.symm, fun request hrequest => ?_⟩
  obtain ⟨-, hbody⟩ := request_of_statusDraft hrequest
  exact ⟨addon.encode, addon, hbody, hback, rfl, rfl, rfl, rfl, rfl, rfl⟩

/-- An addon that is served with its members in another order, with members that nobody knows, with
nulls, with its status and its reference as bare lists, and without an observed generation. -/
def rearranged : Json :=
  .obj [
    ("status", .arr [.arr [.str "", .str "v1", .str "tests", .str "", .str "x/y"]]),
    ("history", .arr [.null]),
    ("spec", .obj [("installNamespace", .null), ("note", .str "")]),
    ("metadata", .obj [("uid", .null), ("namespace", .str "ns"), ("name", .str "a"),
      ("deletionTimestamp", .str "2024-02-29T23:59:60+00:00")]),
    ("kind", .int 1)]

/-- That addon is the same when it was written and read, and the body of the request that writes its
status is read as the addon that is being deleted, with its reference. -/
theorem survives_writing_rearranged : ∃ (addon back : Addon) (request : Cluster.Request)
    (body : Json), decode rearranged = .ok addon ∧
    addon.reference = some ⟨"", "v1", "tests", "", "x/y", .zero⟩ ∧ addon.isDeleting = true ∧
    Metadata.decode addon.metadata.encode = .ok addon.metadata ∧
    decode addon.encode = decode rearranged ∧ addon.statusDraft.request? = some request ∧
    request.body = some body ∧ decode body = .ok back ∧ back.key = ⟨"ns", "a"⟩ ∧
    back.isDeleting = true ∧ back.reference = some ⟨"", "v1", "tests", "", "x/y", .zero⟩ := by
  obtain ⟨hsame, hwritten⟩ := survives_writing.2 rearranged _ rfl rfl
  obtain ⟨body, back, hbody, hback, hkey, -, hdeleting, hreference, -⟩ := hwritten _ rfl
  exact ⟨_, back, _, body, rfl, rfl, rfl, rfl, hsame, rfl, hbody, hback, hkey, hdeleting,
    hreference⟩

end Addon

end AddonWatch

import Yuki.Protocol.Manifest

/-! A save that takes the digests of cached records publishes what the plain save
publishes, and prepares the same objects. -/

namespace Yuki.Manifest

open Compaction Content

mutual

/-- No string of the value is an image. -/
def imageFree : Json → Bool
  | .str s => !isDataImage s
  | .obj fields => imageFreeFields fields
  | .arr items => imageFreeItems items
  | _ => true

def imageFreeItems : List Json → Bool
  | [] => true
  | x :: xs => imageFree x && imageFreeItems xs

def imageFreeFields : List (String × Json) → Bool
  | [] => true
  | (_, v) :: fs => imageFree v && imageFreeFields fs

end

theorem imageFreeItems_map {α : Type} (f : α → Json) (xs : List α)
    (h : ∀ x ∈ xs, imageFree (f x) = true) : imageFreeItems (xs.map f) = true := by
  induction xs with
  | nil => rfl
  | cons x xs ih =>
    rw [List.map_cons, imageFreeItems, h x List.mem_cons_self,
      ih fun y hy => h y (List.mem_cons_of_mem _ hy)]
    rfl

theorem imageFree_strOrNull {s : Option String} (h : s.any isDataImage = false) :
    imageFree (strOrNull s) = true := by
  cases s with
  | none => rfl
  | some s => simpa [strOrNull, imageFree] using h

/-- A record that may skip the encoding has no image in any place. -/
theorem imageFree_encodedRecord {r : Record} (h : cacheableRecord r = true) :
    imageFree (encodedRecord r) = true := by
  have hkinds : isDataImage "message" = false ∧ isDataImage "result" = false := by decide
  cases r with
  | output o =>
    simp only [cacheableRecord, Bool.not_eq_true', List.any_cons, List.any_nil, Bool.or_false,
      Bool.or_eq_false_iff] at h
    simp [encodedRecord, imageFree, imageFreeFields, hkinds, h]
  | message m =>
    change (if m.responseItem.isSome || !m.images.isEmpty then false else _) = true at h
    split at h
    · cases h
    · rename_i hplain
      simp only [Bool.or_eq_true, not_or, Bool.not_eq_true, Option.isSome_eq_false_iff,
        Option.isNone_iff_eq_none, Bool.not_eq_false', List.isEmpty_iff] at hplain
      simp only [List.any_append, List.any_cons, List.any_nil, Option.any_some, Bool.or_false,
        Bool.not_eq_true', Bool.or_eq_false_iff] at h
      obtain ⟨⟨hrole, hcontent, hid, hreasoning⟩, hcalls⟩ := h
      have hcall : ∀ call ∈ m.toolCalls, imageFree (callJson call) = true := by
        intro call hmem
        have hnone := List.any_eq_false.mp hcalls
        have hfree : ∀ s ∈ [call.id, call.type, call.function.name, call.function.arguments],
            isDataImage s = false := by
          intro s hs
          have hin : some s ∈ m.toolCalls.flatMap fun call => [some call.id, some call.type,
              some call.function.name, some call.function.arguments] := by
            refine List.mem_flatMap.mpr ⟨call, hmem, ?_⟩
            simpa using hs
          simpa using hnone _ hin
        simp only [List.mem_cons, List.not_mem_nil, or_false, forall_eq_or_imp, forall_eq] at hfree
        simp [callJson, imageFree, imageFreeFields, hfree]
      have hcalls' : imageFreeItems (m.toolCalls.map callJson) = true :=
        imageFreeItems_map callJson m.toolCalls hcall
      simp [encodedRecord, messageJson, imageFree, imageFreeFields, hkinds, hrole, hplain, hcalls',
        continuationJson, imageFreeItems, imageFree_strOrNull hcontent, imageFree_strOrNull hid,
        imageFree_strOrNull hreasoning]

section Objects

variable [Content String]

mutual

theorem externalize_imageFree : (j : Json) → imageFree j = true → (blobs : Blobs) →
    externalize j blobs = (j, blobs)
  | .str s, h, blobs => by
    have hs : isDataImage s = false := by simpa [imageFree] using h
    simp [externalize, hs]
  | .obj fields, h, blobs => by
    rw [externalize, externalizeFields_imageFree fields (by simpa [imageFree] using h)]
  | .arr items, h, blobs => by
    rw [externalize, externalizeItems_imageFree items (by simpa [imageFree] using h)]
  | .null, _, _ => rfl
  | .bool _, _, _ => rfl
  | .int _, _, _ => rfl
  | .real _ _, _, _ => rfl

theorem externalizeItems_imageFree : (xs : List Json) → imageFreeItems xs = true →
    (blobs : Blobs) → externalizeItems xs blobs = (xs, blobs)
  | [], _, _ => rfl
  | x :: xs, h, blobs => by
    obtain ⟨hx, hxs⟩ := Bool.and_eq_true_iff.mp h
    rw [externalizeItems, externalize_imageFree x hx, externalizeItems_imageFree xs hxs]

theorem externalizeFields_imageFree : (fs : List (String × Json)) → imageFreeFields fs = true →
    (blobs : Blobs) → externalizeFields fs blobs = (fs, blobs)
  | [], _, _ => rfl
  | (k, v) :: fs, h, blobs => by
    obtain ⟨hv, hfs⟩ := Bool.and_eq_true_iff.mp h
    rw [externalizeFields, externalize_imageFree v hv, externalizeFields_imageFree fs hfs]

end

theorem externalize_encodedRecord {r : Record} (h : cacheableRecord r = true) (blobs : Blobs) :
    externalize (encodedRecord r) blobs = (encodedRecord r, blobs) :=
  externalize_imageFree _ (imageFree_encodedRecord h) blobs

/-! The items of the two paths. -/

def recordText (r : Record) : String :=
  (encodedRecord r).dumps

def shortItem (r : Record) : Json :=
  if cacheableRecord r then .obj [] else encodedRecord r

def knownDigest (r : Record) : Option String :=
  if cacheableRecord r then some (Content.hash (recordText r)) else none

/-- The media are the same, and the digests and the contents of the items are those of the
plain items, but for the contents of the records that were put before. -/
theorem externalizeItems_shortItem (rs : List Record) (blobs : Blobs) :
    (externalizeItems (rs.map shortItem) blobs).2 =
      (externalizeItems (rs.map encodedRecord) blobs).2 ∧
    (putItems (rs.map knownDigest) (externalizeItems (rs.map shortItem) blobs).1).1 =
      (putItems [] (externalizeItems (rs.map encodedRecord) blobs).1).1 ∧
    ∀ content, content ∈ (putItems [] (externalizeItems (rs.map encodedRecord) blobs).1).2 ↔
      (∃ r ∈ rs, cacheableRecord r = true ∧ content = recordText r) ∨
        content ∈ (putItems (rs.map knownDigest)
          (externalizeItems (rs.map shortItem) blobs).1).2 := by
  induction rs generalizing blobs with
  | nil => simp [externalizeItems, putItems]
  | cons r rs ih =>
    simp only [List.map_cons, externalizeItems]
    by_cases hr : cacheableRecord r = true
    · have hshort : externalize (shortItem r) blobs = (.obj [], blobs) := by
        rw [shortItem, if_pos hr]
        rfl
      have hknown : knownDigest r = some (Content.hash (recordText r)) := if_pos hr
      rw [hshort, externalize_encodedRecord hr, hknown]
      obtain ⟨hblobs, hitems, hcontents⟩ := ih blobs
      refine ⟨hblobs, ?_, fun content => ?_⟩
      · simp only [putItems, List.tail_nil, hitems]
        rfl
      · simp only [putItems, List.tail_nil, List.mem_append, hcontents, List.mem_cons,
          exists_eq_or_imp, hr, true_and]
        have hput : content ∈ (put (encodedRecord r)).2 ↔ content = recordText r := by
          simp [put, recordText]
        rw [hput]
        exact or_assoc.symm
    · have hshort : shortItem r = encodedRecord r := if_neg hr
      have hknown : knownDigest r = none := if_neg hr
      rw [hshort, hknown]
      obtain ⟨hblobs, hitems, hcontents⟩ := ih (externalize (encodedRecord r) blobs).2
      refine ⟨hblobs, ?_, fun content => ?_⟩
      · simp only [putItems, List.tail_nil, List.tail_cons, hitems]
      · simp only [putItems, List.tail_nil, List.tail_cons, List.mem_append, hcontents,
          List.mem_cons, exists_eq_or_imp, hr, Bool.false_eq_true, false_and, false_or]
        exact or_left_comm

/-! What a store has prepared. -/

/-- A store that has prepared the contents with this property besides its own. -/
structure Adds (before after : JournalStore) (p : String → Prop) : Prop where
  refs : ∀ digest, digest ∈ after.objects.preparedRefs ↔ digest ∈ before.objects.preparedRefs ∨
    ∃ content, p content ∧ digest = Content.hash content
  sizes : ∀ entry, entry ∈ after.objects.preparedSizes ↔ entry ∈ before.objects.preparedSizes ∨
    ∃ content, p content ∧ entry = (Content.hash content, Content.size content)
  sources : ∀ entry, entry ∈ after.objects.preparedSources ↔
    entry ∈ before.objects.preparedSources ∨
      ∃ content, p content ∧ entry = (Content.hash content, content)

namespace Adds

variable {s t u : JournalStore} {p q : String → Prop}

theorem refl (s : JournalStore) : Adds s s fun _ => False :=
  ⟨by simp, by simp, by simp⟩

theorem trans (h : Adds s t p) (h' : Adds t u q) :
    Adds s u fun content => p content ∨ q content := by
  constructor <;> intro x
  · rw [h'.refs, h.refs]
    simp only [or_and_right, exists_or, or_assoc]
  · rw [h'.sizes, h.sizes]
    simp only [or_and_right, exists_or, or_assoc]
  · rw [h'.sources, h.sources]
    simp only [or_and_right, exists_or, or_assoc]

theorem congr (h : Adds s t p) (hpq : ∀ content, p content ↔ q content) : Adds s t q := by
  have heq : p = q := funext fun content => propext (hpq content)
  exact heq ▸ h

theorem prepare (s : JournalStore) (records : Dict Record (String × Int)) (content : String) :
    Adds s ⟨s.objects.prepare (Content.hash content) (Content.size content) content, records⟩
      (· = content) := by
  constructor <;> intro x
  · simp [ProtocolStore.prepare, or_comm]
  · simp [ProtocolStore.prepare, or_comm]
  · simp [ProtocolStore.prepare, or_comm]

theorem putContents (s : JournalStore) (contents : List String) :
    Adds s (s.putContents contents) (· ∈ contents) := by
  induction contents generalizing s with
  | nil => exact (refl s).congr (by simp)
  | cons content contents ih =>
    exact ((prepare s s.records content).trans (ih (s.putBytes content))).congr (by simp)

/-- Stores that agree on what they have prepared. -/
theorem same (h : Adds s t p) (h' : Adds s u p) :
    (∀ digest, digest ∈ t.objects.preparedRefs ↔ digest ∈ u.objects.preparedRefs) ∧
    (∀ entry, entry ∈ t.objects.preparedSizes ↔ entry ∈ u.objects.preparedSizes) ∧
    ∀ entry, entry ∈ t.objects.preparedSources ↔ entry ∈ u.objects.preparedSources :=
  ⟨fun x => (h.refs x).trans (h'.refs x).symm, fun x => (h.sizes x).trans (h'.sizes x).symm,
    fun x => (h.sources x).trans (h'.sources x).symm⟩

end Adds

namespace JournalStore

variable {store : JournalStore}

/-- A known record has the digest and the size of its text. -/
def Known (store : JournalStore) : Prop :=
  ∀ r digest size, store.records.lookup r = some (digest, size) →
    digest = Content.hash (recordText r) ∧ size = Content.size (recordText r)

theorem putRecord_spec (h : store.Known) (r : Record) :
    (store.putRecord r).1 = Content.hash (recordText r) ∧ (store.putRecord r).2.Known ∧
      Adds store (store.putRecord r).2 (· = recordText r) := by
  unfold putRecord
  cases hr : store.records.lookup r with
  | some known =>
    obtain ⟨digest, size⟩ := known
    obtain ⟨rfl, rfl⟩ := h r digest size hr
    exact ⟨rfl, h, Adds.prepare store store.records (recordText r)⟩
  | none =>
    refine ⟨rfl, fun r' digest size hlookup => ?_, Adds.prepare store _ (recordText r)⟩
    dsimp only at hlookup
    rw [Dict.lookup_set] at hlookup
    split at hlookup
    · rename_i heq
      cases hlookup
      exact heq ▸ ⟨rfl, rfl⟩
    · exact h r' digest size hlookup

theorem Reached.known (h : Reached store) : store.Known := by
  induction h with
  | new policy => exact fun r digest size hlookup => by cases hlookup
  | put _ content ih => exact ih
  | record _ r _ ih => exact (putRecord_spec ih r).2.1
  | close _ published ih => exact ih

theorem encodeRecords_spec (h : store.Known) (rs : List Record) :
    (store.encodeRecords rs).1 = (rs.map knownDigest, rs.map shortItem) ∧
      Adds store (store.encodeRecords rs).2
        fun content => ∃ r ∈ rs, cacheableRecord r = true ∧ content = recordText r := by
  induction rs generalizing store with
  | nil => exact ⟨rfl, (Adds.refl store).congr (by simp)⟩
  | cons r rs ih =>
    unfold encodeRecords
    by_cases hr : cacheableRecord r = true
    · obtain ⟨hdigest, hknown, hadds⟩ := putRecord_spec h r
      obtain ⟨hencoded, hadds'⟩ := ih hknown
      rw [if_pos hr]
      dsimp only
      rw [hencoded, hdigest, List.map_cons, List.map_cons, knownDigest, if_pos hr, shortItem,
        if_pos hr]
      refine ⟨rfl, (hadds.trans hadds').congr fun content => ?_⟩
      simp [hr]
    · obtain ⟨hencoded, hadds⟩ := ih h
      rw [if_neg hr]
      dsimp only
      rw [hencoded, List.map_cons, List.map_cons, knownDigest, if_neg hr, shortItem, if_neg hr]
      refine ⟨rfl, hadds.congr fun content => ?_⟩
      simp [hr]

/-- The payload of a manifest. -/
def payloadOf (chain count : Json) (items : List Json)
    (continuation pending metadata media : Json) : Json :=
  .obj [("transcript", .obj [("chain_id", chain), ("messages_count", count), ("items", .arr items),
      ("continuation", continuation)]),
    ("pending", pending), ("metadata", metadata), ("file_media", media)]

/-- The manifest sees the items only through their digests. -/
theorem manifest_payloadOf (chain count : Json) (continuation pending metadata media : Json) :
    ∃ (result : List Json → Json) (rest : List String), ∀ items digests,
      manifest (payloadOf chain count items continuation pending metadata media) digests =
        (result (putItems digests items).1, (putItems digests items).2 ++ rest) := by
  refine ⟨fun digests => .obj [("format", .str "protocol_objects_v1"),
      ("transcript", .obj [("chain_id", chain), ("messages_count", count), ("items", .arr digests),
        ("continuation", if continuation.truthy then .str (put continuation).1 else .null)]),
      ("pending_ref", .str (put pending).1), ("metadata_ref", .str (put (observed metadata).1).1),
      ("file_media", media)],
    (if continuation.truthy then (put continuation).2 else []) ++ (observed metadata).2 ++
      (put pending).2 ++ (put (observed metadata).1).2, fun items digests => ?_⟩
  by_cases ht : continuation.truthy = true <;>
    simp [manifest, payloadOf, Json.get, Json.getD, Json.set, Json.setField, Json.fields,
      Manifest.items, List.lookup_cons, ht]

/-- The items of a transcript, without their media. -/
def plainItems (chainId : String) (encoded : List Json) : List Json × Blobs :=
  externalizeItems encoded (externalize (.str chainId) []).2

/-- After the items, a publication depends on the items only through their media. -/
theorem publish_transcriptJson (chainId : String) (req : TranscriptRequest)
    (pending metadata : Json) (after : Blobs) :
    ∃ (media : List String) (result : List Json → Json) (rest : List String),
      ∀ (store : JournalStore) (encoded : List Json) (digests : List (Option String)),
        (plainItems chainId encoded).2 = after →
        store.publish (transcriptJson chainId req encoded) pending metadata digests =
          (result (putItems digests (plainItems chainId encoded).1).1,
            (store.putContents media).putContents
              ((putItems digests (plainItems chainId encoded).1).2 ++ rest)) := by
  let continuation := externalize (continuationJson req.continuation) after
  let pending' := externalize pending continuation.2
  let metadata' := externalize metadata pending'.2
  obtain ⟨result, rest, hmanifest⟩ := manifest_payloadOf (externalize (.str chainId) []).1
    (.int req.messages.length) continuation.1 pending'.1 metadata'.1
    (.arr ((Dict.keys metadata'.2).map .str))
  refine ⟨metadata'.2.map (·.2), result, rest, fun store encoded digests hafter => ?_⟩
  have hexternalized : externalize (.obj [("transcript", transcriptJson chainId req encoded),
      ("pending", pending), ("metadata", metadata)]) [] =
      (.obj [("transcript", .obj [("chain_id", (externalize (.str chainId) []).1),
          ("messages_count", .int req.messages.length),
          ("items", .arr (plainItems chainId encoded).1), ("continuation", continuation.1)]),
        ("pending", pending'.1), ("metadata", metadata'.1)], metadata'.2) := by
    subst hafter
    rfl
  have hpayload : Json.set (.obj [("transcript",
          .obj [("chain_id", (externalize (.str chainId) []).1),
            ("messages_count", .int req.messages.length),
            ("items", .arr (plainItems chainId encoded).1), ("continuation", continuation.1)]),
        ("pending", pending'.1), ("metadata", metadata'.1)]) "file_media"
        (.arr ((Dict.keys metadata'.2).map .str)) =
      payloadOf (externalize (.str chainId) []).1 (.int req.messages.length)
        (plainItems chainId encoded).1 continuation.1 pending'.1 metadata'.1
        (.arr ((Dict.keys metadata'.2).map .str)) := by
    simp [payloadOf, Json.set, Json.setField, Json.fields]
  unfold publish
  dsimp only
  rw [hexternalized, hpayload, hmanifest]

/-- With the digests of the cached records, a save publishes the manifest of the plain encoding
and prepares the same objects. -/
theorem save_publishes_plain_manifest {store : JournalStore} (h : Reached store)
    (chainId : String) (entries : List Entry) (pending : List Json) (metadata : Dict String Json) :
    let fast := store.save chainId entries pending metadata
    let plain := store.savePlain chainId entries pending metadata
    fast.1 = plain.1 ∧
      (∀ digest, digest ∈ fast.2.objects.preparedRefs ↔ digest ∈ plain.2.objects.preparedRefs) ∧
      (∀ entry, entry ∈ fast.2.objects.preparedSizes ↔ entry ∈ plain.2.objects.preparedSizes) ∧
      (∀ entry, entry ∈ fast.2.objects.preparedSources ↔
        entry ∈ plain.2.objects.preparedSources) ∧
      ∀ r, cacheableRecord r = true → ∀ blobs,
        externalize (encodedRecord r) blobs = (encodedRecord r, blobs) := by
  intro fast plain
  let rs := recordsOf (request entries)
  obtain ⟨hencoded, hrecords⟩ := encodeRecords_spec h.known rs
  obtain ⟨hafter, hitems, hcontents⟩ :=
    externalizeItems_shortItem rs (externalize (.str chainId) []).2
  obtain ⟨media, result, rest, hpublish⟩ := publish_transcriptJson chainId (request entries)
    (.arr pending) (.obj metadata) (plainItems chainId (rs.map encodedRecord)).2
  have hfast : fast = (result (putItems (rs.map knownDigest)
        (plainItems chainId (rs.map shortItem)).1).1,
      ((store.encodeRecords rs).2.putContents media).putContents
        ((putItems (rs.map knownDigest) (plainItems chainId (rs.map shortItem)).1).2 ++ rest)) := by
    change (store.encodeRecords rs).2.publish _ _ _ _ = _
    rw [hencoded]
    exact hpublish _ _ _ hafter
  have hplain : plain = (result (putItems [] (plainItems chainId (rs.map encodedRecord)).1).1,
      (store.putContents media).putContents
        ((putItems [] (plainItems chainId (rs.map encodedRecord)).1).2 ++ rest)) :=
    hpublish store _ [] rfl
  have haddsFast := (hrecords.trans (Adds.putContents _ media)).trans (Adds.putContents _
    ((putItems (rs.map knownDigest) (plainItems chainId (rs.map shortItem)).1).2 ++ rest))
  have haddsPlain := (Adds.putContents store media).trans (Adds.putContents _
    ((putItems [] (plainItems chainId (rs.map encodedRecord)).1).2 ++ rest))
  obtain ⟨hrefs, hsizes, hsources⟩ := haddsFast.same (haddsPlain.congr fun content => by
    simp only [List.mem_append]
    rw [plainItems, hcontents content]
    simp only [or_assoc, or_left_comm, plainItems])
  rw [hfast, hplain]
  refine ⟨congrArg result hitems, hrefs, hsizes, hsources, fun r hr blobs => ?_⟩
  exact externalize_encodedRecord hr blobs

end JournalStore

end Objects

theorem JournalStore.save_publishes_plain_manifest_greeting :
    let _ : Content String := ⟨id, fun text => text.length⟩
    let user : Compaction.ChatMessage := { role := "user", content := some "hello" }
    let drawn : Compaction.ChatMessage :=
      { role := "user", content := some "data:image/png;base64,AA" }
    let opened : JournalStore := ⟨{ policy := ⟨4096, 65536⟩ }, []⟩
    let store := { (opened.putRecord (.message user)).2 with
      objects := (opened.putRecord (.message user)).2.objects.close true }
    (store.save "chain" [.message user, .message drawn] [] []).1 =
      (store.savePlain "chain" [.message user, .message drawn] [] []).1 := by
  intro _ user drawn opened store
  have hopened : Reached opened := .new _
  have hstore : Reached store := (hopened.record (.message user) (by decide)).close true
  exact (save_publishes_plain_manifest hstore "chain" [.message user, .message drawn] [] []).1

end Yuki.Manifest

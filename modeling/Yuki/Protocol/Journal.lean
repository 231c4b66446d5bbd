import Yuki.Protocol.Decoding
import Yuki.Protocol.Hydration
import Yuki.Protocol.Published
import Yuki.Runtime.Lease

/-! The journal of a Work: a saved transcript is loaded, and goes on as the original would. -/

namespace Yuki.Manifest

open Compaction JournalStore

/-- A row of `runtime_work_journal`. -/
structure JournalRow where
  workId : String
  chainId : String
  contract : String
  sourceRevision : Int
  phase : String
  payloadJson : String

structure JournalSnapshot where
  reason : String
  record : Option JournalRow := none
  previousChain : Option String := none
  portableSearch : List Json := []
  portableSearchTruncated : Bool := false
  pendingCalls : List Json := []
  pendingSequence : Int := 0
  taskMaterial : Json := .null

inductive JournalError
  | workConflict (code : String)
  | unavailable (code : String)
  | attributeError
  | keyError (key : String)
deriving DecidableEq

/-- `except (ValueError, OSError, KeyError, TypeError)` around a read. -/
def caught {α : Type} : Read α → Except JournalError α
  | .ok a => .ok a
  | .error .corrupt => .error (.unavailable "work_journal_corrupt")
  | .error .attributeError => .error .attributeError

/-- What the read session of a load finds. -/
structure JournalView where
  /-- The generation and the revision of the conversation. -/
  source : Option (Int × Int)
  row : Option JournalRow
  modelRequests : Option Int
  pendingInputs : Except JournalError Bool
  media : String → Option String
  files : Files String

def isText : Json → Bool
  | .str s => s ≠ ""
  | _ => false

/-- A pending call that the journal accepts. -/
def validPending (call : Json) : Bool :=
  call.isObj && isText (call.get "id") && isText (call.get "name") &&
    (!call.has "readonly_result_key" || isText (call.get "readonly_result_key"))

def pendingCall (call : Json) : Json :=
  .obj ([("id", call.get "id"), ("name", call.get "name"),
      ("arguments", call.getD "arguments" (.str ""))] ++
    if call.has "readonly_result_key" then
      [("readonly_result_key", call.get "readonly_result_key")] else [])

/-- The pending calls of a journal whose contract or source has changed. -/
def pendingOf (payload metadata : Json) : Option (List Json × Int) :=
  match payload.getD "pending" (.arr []), metadata.getD "sequence" (.int 0) with
  | .arr calls, .int sequence =>
    if 0 ≤ sequence ∧ calls.all validPending then some (calls.map pendingCall, sequence) else none
  | _, _ => none

def clipped (n : Nat) : Json → Json
  | .str s => .str (.ofList (s.toList.take n))
  | j => j

/-- The results of a search that another contract may still use. -/
def portableSearchOf (progress : Json) : List Json :=
  match progress.getD "portable_search" (.arr []) with
  | .arr found => ((found.take 16).filter fun item => item.isObj && (item.get "url").isStr &&
      (item.getD "title" (.str "")).isStr && (item.getD "snippet" (.str "")).isStr).map
    fun item => .obj [("url", item.get "url"),
      ("title", clipped 200 (item.getD "title" (.str ""))),
      ("snippet", clipped 512 (item.getD "snippet" (.str "")))]
  | _ => []

/-! A save that can be read back. -/

/-- The payload of a save before its media are taken out. -/
def savedPayload (t : TurnTranscript) (pending : List Json) (metadata : List (String × Json)) :
    Json :=
  .obj [("transcript",
      transcriptJson t.chainId t.request ((recordsOf t.request).map encodedRecord)),
    ("pending", .arr pending), ("metadata", .obj metadata)]

/-- A save that can be read back: JSON values with every key once and no object that looks like
a reference, in messages and checkpoints as the program builds them. -/
structure Savable (t : TurnTranscript) (pending : List Json) (metadata : List (String × Json)) :
    Prop where
  request : PlainRequest t.request
  written : (savedPayload t pending metadata).Written
  unmarked : NoReference (savedPayload t pending metadata)
  progress : PlainMetadata metadata

/-- The payload as it is read, and its media. -/
def loadedPayload (t : TurnTranscript) (pending : List Json) (metadata : List (String × Json))
    (media : Json) : Json :=
  (savedPayload t pending (restoredMetadata metadata)).set "file_media" media

theorem loadedPayload_eq (t : TurnTranscript) (pending : List Json)
    (metadata : List (String × Json)) (media : Json) :
    loadedPayload t pending metadata media =
      .obj [("transcript",
          transcriptJson t.chainId t.request ((recordsOf t.request).map encodedRecord)),
        ("pending", .arr pending), ("metadata", .obj (restoredMetadata metadata)),
        ("file_media", media)] := by
  simp [loadedPayload, savedPayload, Json.set, Json.setField, Json.fields]

/-- Digests are neither references nor images. -/
theorem references_digests (digests : List String) :
    referencesItems (digests.map .str) = some [] := by
  induction digests with
  | nil => rfl
  | cons digest digests ih =>
    rw [List.map_cons, referencesItems, ih]
    rfl

theorem mem_of_mem_set {d : Blobs} {k v : String} {item : String × String}
    (h : item ∈ Dict.set d k v) : item ∈ d ∨ item.1 = k ∧ item.2 = v := by
  induction d with
  | nil =>
    obtain rfl := List.mem_singleton.mp h
    exact .inr ⟨rfl, rfl⟩
  | cons other d ih =>
    obtain ⟨l, w⟩ := other
    unfold Dict.set at h
    split at h
    · rename_i hl
      obtain rfl | h := List.mem_cons.mp h
      · exact .inr ⟨hl, rfl⟩
      · exact .inl (List.mem_cons_of_mem _ h)
    · obtain rfl | h := List.mem_cons.mp h
      · exact .inl List.mem_cons_self
      · exact (ih h).imp_left (List.mem_cons_of_mem _)

section Saving

variable {t : TurnTranscript} {pending : List Json} {metadata : List (String × Json)}

theorem Savable.fields (h : Savable t pending metadata) :
    (∀ r ∈ (recordsOf t.request).map encodedRecord, r.Written) ∧
      (continuationJson t.request.continuation).Written ∧ Json.WrittenItems pending ∧
      (Json.obj metadata).Written := by
  obtain ⟨-, ⟨-, -, -, hitems, hcontinuation, -⟩, hpending, hmetadata, -⟩ := h.written
  exact ⟨writtenItems_iff.mp hitems, hcontinuation, hpending, hmetadata⟩

theorem Savable.restored (h : Savable t pending metadata) :
    (savedPayload t pending (restoredMetadata metadata)).Written ∧
      NoReference (savedPayload t pending (restoredMetadata metadata)) := by
  obtain ⟨hkeys, htranscript, hpending, hmetadata, -⟩ := h.written
  obtain ⟨-, hunmarked, hplain, hmarks, -⟩ := h.unmarked
  exact ⟨⟨hkeys, htranscript, hpending, written_restoredMetadata hmetadata, trivial⟩,
    ⟨rfl, hunmarked, hplain, noReference_restoredMetadata hmarks, trivial⟩⟩

end Saving

section Objects

variable [Content String]

/-- The blobs of the references: those of the files, and the rows of the other media. -/
def blobsOf (media : String → Option String) (files : Files String) (refs : List String)
    (fileMedia : List Json) : Option (String → Option String) :=
  if refs.all fun digest => !fileMedia.contains (.str digest) || (getBytes files digest).isSome then
    some fun digest =>
      if digest ∉ refs then none
      else if fileMedia.contains (.str digest) then getBytes files digest
      else media digest
  else none

/-- The payload with its media. -/
def hydrateMedia (media : String → Option String) (files : Files String) (fileMedia : List Json)
    (payload : Json) : Except JournalError Json := do
  let refs ← expect (references payload) (.unavailable "work_journal_corrupt")
  let refs ← expect (refs.mapM string?) (.unavailable "work_journal_corrupt")
  if refs.isEmpty then return payload
  else
    expect ((blobsOf media files refs fileMedia).bind fun blobs => hydrate blobs payload)
      (.unavailable "work_journal_media_missing")

/-- The payload behind the row, and its `file_media`. -/
def readPayload (files : Files String) (row : JournalRow) :
    Except JournalError (Json × List Json) := do
  let manifest ← expect (Json.loads row.payloadJson) (.unavailable "work_journal_corrupt")
  let payload ← caught (hydrateManifest files manifest)
  require (payload.isObj = true) .attributeError
  let fileMedia ← caught (iterate (payload.getD "file_media" (.arr [])))
  require (fileMedia.all hashable = true) (.unavailable "work_journal_corrupt")
  require ((payload.getD "metadata" (.obj [])).isObj = true)
    (.unavailable "work_journal_corrupt")
  return (payload, fileMedia)

/-- `_load` on a row that is not waiting for its response. -/
def loadRow (view : JournalView) (row : JournalRow) (contractChanged sourceChanged : Bool)
    (retainSource : Bool) : Except JournalError JournalSnapshot := do
  let (payload, fileMedia) ← readPayload view.files row
  let metadata ← expect (payload.get? "metadata") (.keyError "metadata")
  let changed := contractChanged || sourceChanged
  let (pendingCalls, pendingSequence) ← onlyIf changed ([], 0)
    (expect (pendingOf payload metadata) (.unavailable "work_journal_corrupt"))
  let progress := metadata.getD "progress" (.obj [])
  let portableSearch := portableSearchOf progress
  let truncated := (progress.get "portable_search_truncated").truthy
  let retainOriginal := sourceChanged && retainSource && (metadata.get "source_guard").truthy
  let kept := if changed && !retainOriginal then .null else payload
  let hydrated ← hydrateMedia view.media view.files fileMedia kept
  let result := { row with
    payloadJson := (if changed && !retainOriginal then payload else hydrated).dumps }
  if sourceChanged then
    return { reason := "source_changed", record := if retainOriginal then some result else none
             previousChain := row.chainId, pendingCalls, pendingSequence, portableSearch
             portableSearchTruncated := truncated, taskMaterial := progress.get "task_material" }
  else if contractChanged then
    return { reason := "contract_changed", previousChain := row.chainId, portableSearch
             portableSearchTruncated := truncated, pendingCalls, pendingSequence
             taskMaterial := progress.get "task_material" }
  else return { reason := "resume", record := result, previousChain := row.chainId }

/-- `_load`. -/
def load (view : JournalView) (lease : WorkLease) (contract : String) (retainSource : Bool) :
    Except JournalError JournalSnapshot := do
  let (generation, revision) ← expect view.source (.workConflict "work_journal_generation_changed")
  require (generation = lease.generation) (.workConflict "work_journal_generation_changed")
  match view.row with
  | none =>
    if view.modelRequests.getD 0 = 0 then return { reason := "fresh" }
    else .error (.unavailable "work_journal_missing")
  | some row =>
    if row.phase = "dispatched" ∧ row.contract = contract then
      let pending ← view.pendingInputs
      if pending then return { reason := "lost_response", previousChain := row.chainId }
      else .error (.unavailable "work_response_not_persisted")
    else
      loadRow view row (row.contract ≠ contract)
        (!truthy lease.workId && row.sourceRevision ≠ revision) retainSource

/-! What a save writes. -/

/-- The media of a save, by their digests. -/
def savedMedia (t : TurnTranscript) (pending : List Json) (metadata : List (String × Json)) :
    List Json :=
  (Dict.keys (addBlobs [] (images (savedPayload t pending metadata)))).map .str

theorem written_savedMedia (t : TurnTranscript) (pending : List Json)
    (metadata : List (String × Json)) : (Json.arr (savedMedia t pending metadata)).Written :=
  writtenItems_iff.mpr fun x hx => by
    obtain ⟨digest, -, rfl⟩ := List.mem_map.mp hx
    trivial

/-- The texts that a save puts into files: the images, and the objects of the manifest. -/
def savedTexts (t : TurnTranscript) (pending : List Json) (metadata : List (String × Json)) :
    List String :=
  images (savedPayload t pending metadata) ++
    (manifest ((marked (savedPayload t pending metadata)).set "file_media"
      (.arr (savedMedia t pending metadata))) []).2

/-- The row of a save. -/
def savedRow (store : JournalStore) (t : TurnTranscript) (pending : List Json)
    (metadata : List (String × Json)) (workId contract phase : String) (revision : Int) :
    JournalRow where
  workId
  chainId := t.chainId
  contract
  sourceRevision := revision
  phase
  payloadJson := (store.save t.chainId t.entries pending metadata).1.dumps

theorem savePlain_eq (store : JournalStore) (t : TurnTranscript) (pending : List Json)
    (metadata : List (String × Json)) :
    store.savePlain t.chainId t.entries pending metadata =
      ((manifest ((marked (savedPayload t pending metadata)).set "file_media"
          (.arr (savedMedia t pending metadata))) []).1,
        (store.putContents ((addBlobs [] (images (savedPayload t pending metadata))).map
          (·.2))).putContents
          (manifest ((marked (savedPayload t pending metadata)).set "file_media"
            (.arr (savedMedia t pending metadata))) []).2) := by
  unfold savePlain publish
  dsimp only
  rw [externalize_eq]
  rfl

/-- The digests of the records that were encoded before change nothing in the manifest, and
the objects of a plain save are prepared. -/
theorem save_alike {store : JournalStore} (h : Reached store) (t : TurnTranscript)
    (pending : List Json) (metadata : List (String × Json)) :
    (store.save t.chainId t.entries pending metadata).1 =
        (store.savePlain t.chainId t.entries pending metadata).1 ∧
      ∀ digest ∈ (store.savePlain t.chainId t.entries pending metadata).2.objects.preparedRefs,
        digest ∈ (store.save t.chainId t.entries pending metadata).2.objects.preparedRefs := by
  obtain ⟨hencoded, hrecords⟩ := encodeRecords_spec h.known (recordsOf t.request)
  obtain ⟨hafter, hitems, hcontents⟩ := externalizeItems_shortItem (recordsOf t.request)
    (externalize (.str t.chainId) []).2
  obtain ⟨media, result, rest, hpublish⟩ := publish_transcriptJson t.chainId t.request
    (.arr pending) (.obj metadata)
    (plainItems t.chainId ((recordsOf t.request).map encodedRecord)).2
  have hplain := hpublish store ((recordsOf t.request).map encodedRecord) [] rfl
  have hfast := hpublish (store.encodeRecords (recordsOf t.request)).2
    ((recordsOf t.request).map shortItem) ((recordsOf t.request).map knownDigest) hafter
  have hsave : store.save t.chainId t.entries pending metadata =
      (store.encodeRecords (recordsOf t.request)).2.publish
        (transcriptJson t.chainId t.request ((recordsOf t.request).map shortItem)) (.arr pending)
        (.obj metadata) ((recordsOf t.request).map knownDigest) := by
    change (store.encodeRecords (recordsOf t.request)).2.publish
      (transcriptJson t.chainId t.request (store.encodeRecords (recordsOf t.request)).1.2) _ _
      (store.encodeRecords (recordsOf t.request)).1.1 = _
    rw [hencoded]
  have hsavePlain : store.savePlain t.chainId t.entries pending metadata =
      store.publish (transcriptJson t.chainId t.request ((recordsOf t.request).map encodedRecord))
        (.arr pending) (.obj metadata) [] := rfl
  have haddsPlain := (Adds.putContents store media).trans (Adds.putContents _
    ((putItems [] (plainItems t.chainId ((recordsOf t.request).map encodedRecord)).1).2 ++ rest))
  have haddsFast := (hrecords.trans (Adds.putContents _ media)).trans (Adds.putContents _
    ((putItems ((recordsOf t.request).map knownDigest)
      (plainItems t.chainId ((recordsOf t.request).map shortItem)).1).2 ++ rest))
  rw [hsave, hsavePlain, hfast, hplain]
  refine ⟨congrArg result hitems, fun digest hdigest => ?_⟩
  rw [haddsFast.refs]
  refine ((haddsPlain.refs digest).mp hdigest).imp_right ?_
  rintro ⟨content, hcontent, rfl⟩
  refine ⟨content, ?_, rfl⟩
  obtain hcontent | hcontent := hcontent
  · exact .inl (.inr hcontent)
  · obtain hcontent | hcontent := List.mem_append.mp hcontent
    · rw [plainItems, hcontents content] at hcontent
      obtain hcontent | hcontent := hcontent
      · exact .inl (.inl hcontent)
      · exact .inr (List.mem_append_left _ hcontent)
    · exact .inr (List.mem_append_right _ hcontent)

theorem mem_keys_addBlobs {texts : List String} {text : String} (blobs : Blobs)
    (h : text ∈ texts ∨ Content.hash text ∈ Dict.keys blobs) :
    Content.hash text ∈ Dict.keys (addBlobs blobs texts) := by
  induction texts generalizing blobs with
  | nil => simpa [addBlobs] using h
  | cons other texts ih =>
    refine ih (Dict.set blobs (Content.hash other) other) ?_
    rw [Dict.mem_keys_set]
    obtain h | h := h
    · obtain rfl | h := List.mem_cons.mp h
      · exact .inr (.inl rfl)
      · exact .inl h
    · exact .inr (.inr h)

theorem mem_addBlobs {texts : List String} {blobs : Blobs} {digest text : String}
    (h : (digest, text) ∈ addBlobs blobs texts) :
    (digest, text) ∈ blobs ∨ digest = Content.hash text := by
  induction texts generalizing blobs with
  | nil => exact .inl h
  | cons other texts ih =>
    obtain h | h := ih h
    · obtain h | ⟨hkey, hvalue⟩ := mem_of_mem_set h
      · exact .inl h
      · exact .inr (hkey.trans (congrArg Content.hash hvalue.symm))
    · exact .inr h

theorem savedTexts_prepared {store : JournalStore} (h : Reached store) (t : TurnTranscript)
    (pending : List Json) (metadata : List (String × Json)) :
    ∀ text ∈ savedTexts t pending metadata, Content.hash text ∈
      (store.save t.chainId t.entries pending metadata).2.objects.preparedRefs := by
  intro text htext
  refine (save_alike h t pending metadata).2 _ ?_
  rw [savePlain_eq]
  have hadds := (Adds.putContents store ((addBlobs [] (images (savedPayload t pending
    metadata))).map (·.2))).trans (Adds.putContents _ (manifest ((marked (savedPayload t pending
      metadata)).set "file_media" (.arr (savedMedia t pending metadata))) []).2)
  rw [hadds.refs]
  right
  obtain htext | htext := List.mem_append.mp htext
  · have hkey := mem_keys_addBlobs [] (.inl htext)
    obtain ⟨value, hvalue⟩ := Dict.mem_keys.mp hkey
    have hmem := Dict.mem_of_lookup hvalue
    obtain h | hdigest := mem_addBlobs hmem
    · cases h
    · exact ⟨value, .inl (List.mem_map_of_mem hmem), hdigest⟩
  · exact ⟨text, .inr htext, rfl⟩

/-- What the objects of a save were before they were taken out. -/
theorem marked_savedPayload (t : TurnTranscript) (pending : List Json)
    (metadata : List (String × Json)) (media : Json) :
    (marked (savedPayload t pending metadata)).set "file_media" media =
      preparedPayload (marked (.str t.chainId)) t.request.messages.length
        (markedItems ((recordsOf t.request).map encodedRecord))
        (marked (continuationJson t.request.continuation)) (.arr (markedItems pending))
        (markedFields metadata) media := by
  simp [savedPayload, transcriptJson, marked, markedFields, preparedPayload, Json.set,
    Json.setField, Json.fields]

section Loading

variable {t : TurnTranscript} {pending : List Json} {metadata : List (String × Json)}

/-- The manifest of the save leads back to the payload without its images. -/
theorem readPayload_savedRow {store : JournalStore} (hstore : Reached store)
    (h : Savable t pending metadata) (hdigest : ∀ text : String, Content.hash text ≠ "")
    {files : Files String} (hfiles : ∀ text ∈ savedTexts t pending metadata, Holds files text)
    (workId contract phase : String) (revision : Int) :
    readPayload files (savedRow store t pending metadata workId contract phase revision) =
      .ok ((marked (savedPayload t pending (restoredMetadata metadata))).set "file_media"
        (.arr (savedMedia t pending metadata)), savedMedia t pending metadata) := by
  obtain ⟨hrecords, hcontinuation, hpending, hmetadata⟩ := h.fields
  have hmedia := written_savedMedia t pending metadata
  have hcheckpoint : marked (continuationJson t.request.continuation) = .null ∨
      (marked (continuationJson t.request.continuation)).truthy = true := by
    cases t.request.continuation with
    | none => exact .inl rfl
    | some c => exact .inr rfl
  have hobjects : ∀ text ∈ (manifest ((marked (savedPayload t pending metadata)).set "file_media"
      (.arr (savedMedia t pending metadata))) []).2, Holds files text :=
    fun text ht => hfiles text (List.mem_append_right _ ht)
  rw [marked_savedPayload] at hobjects
  have hitems : (Json.arr (markedItems pending)).Written := writtenItems_marked _ hpending
  have hback := hydrateManifest_manifest
    (writtenItems_iff.mp (writtenItems_marked _ (writtenItems_iff.mpr hrecords)))
    (written_marked _ hcontinuation) hcheckpoint hitems (written_marked _ hmetadata)
    (plainMetadata_marked h.progress) hdigest hobjects
  rw [marked_restoredMetadata h.progress, ← marked_savedPayload t pending metadata,
    ← marked_savedPayload t pending (restoredMetadata metadata)] at hback
  have hwritten : (manifest ((marked (savedPayload t pending metadata)).set "file_media"
      (.arr (savedMedia t pending metadata))) []).1.Written := by
    rw [marked_savedPayload]
    exact written_manifest (written_marked (.str t.chainId) trivial) hmedia
  have hloads := Json.loads_dumps hwritten
  have hhashable : ∀ x ∈ savedMedia t pending metadata, hashable x = true := by
    intro x hx
    obtain ⟨digest, -, rfl⟩ := List.mem_map.mp hx
    rfl
  unfold readPayload savedRow
  dsimp only
  rw [(save_alike hstore t pending metadata).1, savePlain_eq, hloads]
  simp only [expect, ok_bind, hback, caught, Json.isObj_set, require_of trivial]
  rw [marked_savedPayload]
  simpa [preparedPayload, Json.getD, Json.get?, Json.fields, Json.lookup_cons, iterate,
    require_of, Json.isObj] using hhashable

theorem hydrate_digests (blobs : String → Option String) (digests : List String) :
    hydrateItems blobs (digests.map .str) = some (digests.map .str) := by
  induction digests with
  | nil => rfl
  | cons digest digests ih =>
    rw [List.map_cons, hydrateItems, ih]
    rfl

theorem marked_set_fileMedia (t : TurnTranscript) (pending : List Json)
    (metadata : List (String × Json)) (media : Json) :
    (marked (savedPayload t pending metadata)).set "file_media" media =
      .obj [("transcript",
          marked (transcriptJson t.chainId t.request ((recordsOf t.request).map encodedRecord))),
        ("pending", marked (.arr pending)), ("metadata", marked (.obj metadata)),
        ("file_media", media)] := by
  simp [savedPayload, marked, markedFields, Json.set, Json.setField, Json.fields]

/-- The images are read from their files and put where their references stood. -/
theorem hydrateMedia_saved (h : Savable t pending metadata) (media : String → Option String)
    {files : Files String} (hfiles : ∀ text ∈ savedTexts t pending metadata, Holds files text) :
    hydrateMedia media files (savedMedia t pending metadata)
        ((marked (savedPayload t pending (restoredMetadata metadata))).set "file_media"
          (.arr (savedMedia t pending metadata))) =
      .ok (loadedPayload t pending metadata (.arr (savedMedia t pending metadata))) := by
  obtain ⟨-, -, htranscript, hpending, hmetadata, -⟩ := h.restored
  obtain ⟨hkey, -⟩ := h.restored.2
  have himages : ∀ s ∈ images (savedPayload t pending (restoredMetadata metadata)),
      s ∈ images (savedPayload t pending metadata) := by
    intro s hs
    simp only [savedPayload, images, imagesFields, List.append_nil, List.mem_append] at hs ⊢
    exact hs.imp_right fun hs => hs.imp_right images_restoredMetadata
  have hread : ∀ s ∈ images (savedPayload t pending (restoredMetadata metadata)),
      getBytes files (Content.hash s) = some s := fun s hs =>
    getBytes_of_holds (hfiles s (List.mem_append_left _ (himages s hs)))
  have hmedia : ∀ s ∈ images (savedPayload t pending (restoredMetadata metadata)),
      (savedMedia t pending metadata).contains (.str (Content.hash s)) = true := by
    intro s hs
    rw [List.contains_iff_mem]
    exact List.mem_map_of_mem (mem_keys_addBlobs [] (.inl (himages s hs)))
  have hreferences : references ((marked (savedPayload t pending
      (restoredMetadata metadata))).set "file_media" (.arr (savedMedia t pending metadata))) =
      some ((images (savedPayload t pending (restoredMetadata metadata))).map
        fun s => .str (Content.hash s)) := by
    rw [marked_set_fileMedia, references]
    change referencesFields _ = _
    simp only [referencesFields, references_marked _ htranscript, references_marked _ hpending,
      references_marked _ hmetadata, references, savedMedia, references_digests]
    simp [savedPayload, images, imagesFields]
  have hhydrate : ∀ blobs : String → Option String,
      (∀ s ∈ images (savedPayload t pending (restoredMetadata metadata)),
        blobs (Content.hash s) = some s) →
      hydrate blobs ((marked (savedPayload t pending (restoredMetadata metadata))).set
        "file_media" (.arr (savedMedia t pending metadata))) =
        some (loadedPayload t pending metadata (.arr (savedMedia t pending metadata))) := by
    intro blobs hblobs
    have hT := hydrate_marked _ htranscript fun s hs =>
      hblobs s (by simp [savedPayload, images, imagesFields, hs])
    have hP := hydrate_marked _ hpending fun s hs =>
      hblobs s (by simp [savedPayload, images, imagesFields] at hs ⊢; simp [hs])
    have hM := hydrate_marked _ hmetadata fun s hs =>
      hblobs s (by simp [savedPayload, images, imagesFields] at hs ⊢; simp [hs])
    rw [marked_set_fileMedia, loadedPayload_eq, hydrate]
    change (hydrateFields blobs _).map Json.obj = _
    simp only [hydrateFields, hT, hP, hM, hydrate, savedMedia, hydrate_digests]
    rfl
  have hdigests : ((images (savedPayload t pending (restoredMetadata metadata))).map
      fun s => Json.str (Content.hash s)).mapM string? =
      some ((images (savedPayload t pending (restoredMetadata metadata))).map Content.hash) := by
    have hmap : (((images (savedPayload t pending (restoredMetadata metadata))).map
        Content.hash).map Json.str).mapM string? =
        some ((images (savedPayload t pending (restoredMetadata metadata))).map Content.hash) :=
      mapM_map fun _ _ => rfl
    rwa [List.map_map] at hmap
  unfold hydrateMedia
  rw [hreferences]
  simp only [expect, ok_bind, hdigests]
  split
  · rename_i hempty
    have hnil : images (savedPayload t pending (restoredMetadata metadata)) = [] := by
      simpa using hempty
    rw [marked_of_images_nil _ hnil]
    rfl
  · have hall : (((images (savedPayload t pending (restoredMetadata metadata))).map
        Content.hash).all fun digest =>
          !(savedMedia t pending metadata).contains (.str digest) ||
            (getBytes files digest).isSome) = true := by
      rw [List.all_map, List.all_eq_true]
      intro s hs
      simp [hread s hs]
    rw [blobsOf, if_pos hall, Option.bind_some, hhydrate]
    intro s hs
    have hmem : Content.hash s ∈
        (images (savedPayload t pending (restoredMetadata metadata))).map Content.hash :=
      List.mem_map_of_mem hs
    simp only [hmem, not_true_eq_false, if_false, hmedia s hs, if_true, hread s hs]

/-- The objects that a save prepared are in their files, as the verification of its publication
leaves them: `files` keeps a text of the digest, and no other text has the digest of one saved. -/
structure Kept (files : Files String) (objects : ProtocolStore String) (texts : List String) :
    Prop where
  stored : ∀ digest ∈ objects.preparedRefs,
    ∃ file, files digest = some file ∧ Content.hash file.content = digest
  distinct : ∀ text ∈ texts, ∀ digest file, files digest = some file →
    Content.hash file.content = Content.hash text → file.content = text

theorem Kept.holds {files : Files String} {objects : ProtocolStore String} {texts : List String}
    (h : Kept files objects texts)
    (hprepared : ∀ text ∈ texts, Content.hash text ∈ objects.preparedRefs) :
    ∀ text ∈ texts, Holds files text := by
  intro text htext
  obtain ⟨file, hfile, hhash⟩ := h.stored _ (hprepared text htext)
  unfold Holds
  rw [hfile, Option.map_some, h.distinct text htext _ file hfile hhash]

/-- A saved transcript is loaded with the chain and the request it had, its pending calls and its
metadata, and every further run of operations makes the same requests of it as of the original,
or fails with it. -/
theorem load_save {store : JournalStore} (hstore : Reached store)
    (hsave : Savable t pending metadata) (hdigest : ∀ text : String, Content.hash text ≠ "")
    {view : JournalView} {lease : WorkLease} {workId contract phase : String} {revision : Int}
    (hsource : view.source = some (lease.generation, revision))
    (hrow : view.row = some (savedRow store t pending metadata workId contract phase revision))
    (hphase : phase ≠ "dispatched")
    (hkept : Kept view.files (store.save t.chainId t.entries pending metadata).2.objects
      (savedTexts t pending metadata)) (retainSource : Bool) :
    ∃ record payload u,
      load view lease contract retainSource =
        .ok { reason := "resume", record := some record, previousChain := some t.chainId } ∧
      Json.loads record.payloadJson = some payload ∧
      payload.get? "pending" = some (.arr pending) ∧
      payload.get? "metadata" = some (.obj (restoredMetadata metadata)) ∧
      (payload.get? "transcript").bind decodeTranscript = some u ∧
      u.chainId = t.chainId ∧ u.request = t.request ∧
      ∀ ops, (u.run ops).map TurnTranscript.request = (t.run ops).map TurnTranscript.request := by
  have hfiles := hkept.holds (savedTexts_prepared hstore t pending metadata)
  have hread := readPayload_savedRow hstore hsave hdigest hfiles workId contract phase revision
  have hmedia := hydrateMedia_saved hsave view.media hfiles
  have hwritten : (loadedPayload t pending metadata
      (.arr (savedMedia t pending metadata))).Written := by
    obtain ⟨-, htranscript, hpending, hmetadata, -⟩ := hsave.restored.1
    have hkeys : ["transcript", "pending", "metadata", "file_media"].Nodup := by decide
    rw [loadedPayload_eq]
    exact ⟨hkeys, htranscript, hpending, hmetadata, written_savedMedia t pending metadata, trivial⟩
  have hrequest := TurnTranscript.request_ofRequest t.chainId t.items_of_continuation_none
  refine ⟨{ savedRow store t pending metadata workId contract phase revision with
    payloadJson := (loadedPayload t pending metadata
      (.arr (savedMedia t pending metadata))).dumps },
    _, TurnTranscript.ofRequest t.chainId t.request, ?_, Json.loads_dumps hwritten, ?_, ?_, ?_, rfl,
    hrequest, fun ops => TurnTranscript.run_alike hrequest ops⟩
  · unfold load
    rw [hsource, hrow]
    have hlive : ¬ (phase = "dispatched" ∧ contract = contract) := fun h => hphase h.1
    have hmeta : ((marked (savedPayload t pending (restoredMetadata metadata))).set "file_media"
        (.arr (savedMedia t pending metadata))).get? "metadata" =
        some (marked (.obj (restoredMetadata metadata))) := by
      rw [marked_set_fileMedia]
      rfl
    have hcontract : decide ((savedRow store t pending metadata workId contract phase
        revision).contract ≠ contract) = false := by simp [savedRow]
    have hrevision : (!truthy lease.workId && decide ((savedRow store t pending metadata workId
        contract phase revision).sourceRevision ≠ revision)) = false := by simp [savedRow]
    simp only [expect, ok_bind, require_of trivial]
    refine (if_neg hlive).trans ?_
    rw [hcontract, hrevision]
    unfold loadRow
    rw [hread]
    simp only [ok_bind, hmeta, expect, Bool.or_false, Bool.false_and, onlyIf, Bool.false_eq_true,
      if_false, hmedia]
    rfl
  · rw [loadedPayload_eq]
    rfl
  · rw [loadedPayload_eq]
    rfl
  · rw [loadedPayload_eq, Json.get?_obj, List.lookup_cons]
    exact decodeTranscript_transcriptJson t.chainId hsave.request t.items_of_continuation_none

end Loading

/-! The digests that a store has prepared are those of texts. -/

theorem reached_putContents {store : JournalStore} (h : Reached store) (contents : List String) :
    Reached (store.putContents contents) := by
  induction contents generalizing store with
  | nil => exact h
  | cons content contents ih => exact ih (h.put content)

theorem reached_encodeRecords {store : JournalStore} (h : Reached store) (rs : List Record) :
    Reached (store.encodeRecords rs).2 := by
  induction rs generalizing store with
  | nil => exact h
  | cons r rs ih =>
    unfold encodeRecords
    split
    · rename_i hr
      exact ih (h.record r hr)
    · exact ih h

theorem reached_save {store : JournalStore} (h : Reached store) (t : TurnTranscript)
    (pending : List Json) (metadata : List (String × Json)) :
    Reached (store.save t.chainId t.entries pending metadata).2 :=
  reached_putContents (reached_putContents (reached_encodeRecords h _) _) _

theorem digest_of_reached {store : JournalStore} (h : Reached store) :
    ∀ digest ∈ store.objects.preparedRefs, ∃ text : String, digest = Content.hash text := by
  induction h with
  | new policy => exact fun digest h => by cases h
  | put before content ih =>
    intro digest hdigest
    obtain rfl | hdigest := List.mem_insert_iff.mp hdigest
    · exact ⟨content, rfl⟩
    · exact ih digest hdigest
  | record before r cacheable ih =>
    intro digest hdigest
    obtain hdigest | ⟨text, -, rfl⟩ :=
      ((putRecord_spec before.known r).2.2.refs digest).mp hdigest
    · exact ih digest hdigest
    · exact ⟨text, rfl⟩
  | close before published ih =>
    intro digest hdigest
    cases published with
    | true => cases hdigest
    | false => exact ih digest hdigest

end Objects

theorem load_save_checkpoint :
    let _ : Content String := ⟨fun text => "#" ++ text, fun text => text.length⟩
    let image : Compaction.ChatImage := ⟨"data:image/png;base64,AA", "current", none, none, none,
      none, none, none, none, none, none, none, none, none, none, none, none⟩
    let asked : Compaction.ChatMessage :=
      { role := "user", content := some "look", images := [image] }
    let checkpoint : ProviderContinuation :=
      ⟨"gemini", "native", .tuple [.obj [("parts", .arr [.real 15 (-1)])]], "main"⟩
    let t : TurnTranscript :=
      ⟨"chain", [.message asked, .continuation checkpoint, .output ⟨"call", "done"⟩]⟩
    let opened : JournalStore := ⟨{ policy := ⟨4096, 65536⟩ }, []⟩
    let files : Files String := fun digest => some ⟨String.ofList (digest.toList.drop 1), 0⟩
    let row := savedRow opened t [] [] "work" "contract" "paired" 7
    let view : JournalView := ⟨some (1, 7), some row, some 1, .ok false, fun _ => none, files⟩
    ∃ record payload u,
      load view ⟨"chat", 1, 0, 3, "host", none⟩ "contract" false =
        .ok { reason := "resume", record := some record, previousChain := some "chain" } ∧
      Json.loads record.payloadJson = some payload ∧
      payload.get? "pending" = some (.arr []) ∧
      payload.get? "metadata" = some (.obj (restoredMetadata [])) ∧
      (payload.get? "transcript").bind decodeTranscript = some u ∧
      u.chainId = "chain" ∧ u.request = t.request ∧
      ∀ ops, (u.run ops).map TurnTranscript.request = (t.run ops).map TurnTranscript.request := by
  intro _ image asked checkpoint t opened files row view
  have hstore : Reached opened := .new _
  have hrequest : t.request = ⟨[asked], some checkpoint, [.output ⟨"call", "done"⟩]⟩ := rfl
  have hasked : Plain asked := by
    refine ⟨fun i hi => ?_, fun c hc => by cases hc⟩
    obtain rfl := List.mem_singleton.mp hi
    exact ⟨by decide, by decide⟩
  have hsave : Savable t [] [] := by
    refine ⟨⟨?_, ?_, ?_⟩, ?_, ?_, fun p hp => by cases hp⟩
    · intro m hm
      rw [hrequest] at hm
      obtain rfl := List.mem_singleton.mp hm
      exact hasked
    · intro r hr m hm
      rw [hrequest] at hr
      obtain rfl := List.mem_singleton.mp hr
      cases hm
    · intro c hc xs
      rw [hrequest] at hc
      cases hc
      exact fun h => by cases h
    · unfold savedPayload
      rw [hrequest]
      simp [transcriptJson, recordsOf, encodedRecord, messageJson, continuationJson, imageJson,
        strOrNull, intOrNull, payloadJson, asked, image, checkpoint, Json.Written,
        Json.WrittenItems, Json.WrittenFields, Json.Shortest]
    · unfold savedPayload
      rw [hrequest]
      simp [transcriptJson, recordsOf, encodedRecord, messageJson, continuationJson, imageJson,
        strOrNull, intOrNull, payloadJson, asked, image, checkpoint, NoReference,
        NoReferenceItems, NoReferenceFields, reference?]
  have htext : ∀ text : String, (String.ofList (("#" ++ text).toList.drop 1)) = text := by
    intro text
    rw [String.toList_append]
    exact String.ofList_toList
  have hhash : ∀ a b : String, "#" ++ a = "#" ++ b → a = b := fun a b h => by
    rw [← htext a, h, htext]
  have hkept : Kept files (opened.save t.chainId t.entries [] []).2.objects
      (savedTexts t [] []) := by
    refine ⟨fun digest hdigest => ?_, fun text _ digest file _ h => hhash _ _ h⟩
    obtain ⟨text, rfl⟩ := digest_of_reached (reached_save hstore t [] []) digest hdigest
    exact ⟨_, rfl, congrArg ("#" ++ ·) (htext text)⟩
  have hdigest : ∀ text : String, "#" ++ text ≠ "" := fun text h => by
    have := congrArg String.toList h
    rw [String.toList_append] at this
    cases this
  exact load_save hstore hsave hdigest rfl rfl (by decide) hkept false

end Yuki.Manifest

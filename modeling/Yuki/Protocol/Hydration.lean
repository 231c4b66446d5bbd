import Mathlib.Data.List.Infix
import Yuki.Lib.JsonRoundTrip
import Yuki.Protocol.Manifest

/-! Reading a manifest back: the objects come from their files, and the media in
the place of their references. -/

namespace Yuki.Manifest

/-- What a read raises: an error that the journal reports as its own, or one it lets through. -/
inductive ReadError
  | corrupt
  | attributeError
deriving DecidableEq

abbrev Read (α : Type) := Except ReadError α

/-- The values a `for` goes over. -/
def iterate : Json → Read (List Json)
  | .arr xs => .ok xs
  | .obj fs => .ok (fs.map fun f => .str f.1)
  | .str s => .ok (s.toList.map fun c => .str (.ofList [c]))
  | _ => .error .corrupt

/-- What can be an element of a set. -/
def hashable : Json → Bool
  | .arr _ => false
  | .obj _ => false
  | _ => true

/-- `set(value) == {"$work_media"}`. -/
def reference? : List (String × Json) → Option Json
  | [(k, v)] => if k = "$work_media" then some v else none
  | _ => none

mutual

/-- `references`; there are none where a reference cannot be in a set. -/
def references : Json → Option (List Json)
  | .obj fields =>
    match reference? fields with
    | some v => if hashable v then some [v] else none
    | none => referencesFields fields
  | .arr items => referencesItems items
  | _ => some []

def referencesItems : List Json → Option (List Json)
  | [] => some []
  | x :: xs => do
    let refs ← references x
    let rest ← referencesItems xs
    return refs ++ rest

def referencesFields : List (String × Json) → Option (List Json)
  | [] => some []
  | (_, v) :: fs => do
    let refs ← references v
    let rest ← referencesFields fs
    return refs ++ rest

end

/-! Values whose images can be taken out and put back. -/

mutual

/-- The images of a value, in their order. -/
def images : Json → List String
  | .str s => if isDataImage s then [s] else []
  | .obj fields => imagesFields fields
  | .arr items => imagesItems items
  | _ => []

def imagesItems : List Json → List String
  | [] => []
  | x :: xs => images x ++ imagesItems xs

def imagesFields : List (String × Json) → List String
  | [] => []
  | (_, v) :: fs => images v ++ imagesFields fs

end

mutual

/-- No object has the key of a reference alone. -/
def NoReference : Json → Prop
  | .obj fields => reference? fields = none ∧ NoReferenceFields fields
  | .arr items => NoReferenceItems items
  | _ => True

def NoReferenceItems : List Json → Prop
  | [] => True
  | x :: xs => NoReference x ∧ NoReferenceItems xs

def NoReferenceFields : List (String × Json) → Prop
  | [] => True
  | (_, v) :: fs => NoReference v ∧ NoReferenceFields fs

end

theorem setField_eq_set (k : String) (v : Json) (fs : List (String × Json)) :
    Json.setField k v fs = Dict.set fs k v := by
  induction fs with
  | nil => rfl
  | cons f fs ih =>
    obtain ⟨l, w⟩ := f
    unfold Json.setField Dict.set
    rw [ih]
    split
    · rename_i hl
      rw [hl]
    · rfl

theorem writtenFields_iff {fs : List (String × Json)} :
    Json.WrittenFields fs ↔ ∀ f ∈ fs, f.2.Written := by
  induction fs with
  | nil => simp [Json.WrittenFields]
  | cons f fs ih =>
    obtain ⟨k, v⟩ := f
    simp [Json.WrittenFields, ih]

theorem noReferenceFields_iff {fs : List (String × Json)} :
    NoReferenceFields fs ↔ ∀ f ∈ fs, NoReference f.2 := by
  induction fs with
  | nil => simp [NoReferenceFields]
  | cons f fs ih =>
    obtain ⟨k, v⟩ := f
    simp [NoReferenceFields, ih]

theorem mem_imagesFields {fs : List (String × Json)} {s : String} :
    s ∈ imagesFields fs ↔ ∃ f ∈ fs, s ∈ images f.2 := by
  induction fs with
  | nil => simp [imagesFields]
  | cons f fs ih =>
    obtain ⟨k, v⟩ := f
    simp [imagesFields, ih]

theorem mem_setField {k : String} {v : Json} {fs : List (String × Json)} {f : String × Json}
    (h : f ∈ Json.setField k v fs) : f = (k, v) ∨ f ∈ fs := by
  induction fs with
  | nil => exact .inl (List.mem_singleton.mp h)
  | cons g fs ih =>
    obtain ⟨l, w⟩ := g
    unfold Json.setField at h
    split at h
    · obtain rfl | h := List.mem_cons.mp h
      · exact .inl rfl
      · exact .inr (List.mem_cons_of_mem _ h)
    · obtain rfl | h := List.mem_cons.mp h
      · exact .inr List.mem_cons_self
      · exact (ih h).imp_right (List.mem_cons_of_mem _)

theorem written_setField {k : String} {v : Json} {fs : List (String × Json)}
    (h : (Json.obj fs).Written) (hv : v.Written) : (Json.obj (Json.setField k v fs)).Written := by
  refine ⟨?_, writtenFields_iff.mpr fun f hf => ?_⟩
  · rw [setField_eq_set]
    exact Dict.nodup_set h.1 k v
  · obtain rfl | hf := mem_setField hf
    · exact hv
    · exact writtenFields_iff.mp h.2 f hf

theorem written_filter {p : String × Json → Bool} {fs : List (String × Json)}
    (h : (Json.obj fs).Written) : (Json.obj (fs.filter p)).Written :=
  ⟨h.1.sublist (List.filter_sublist.map _),
    writtenFields_iff.mpr fun f hf => writtenFields_iff.mp h.2 f (List.mem_of_mem_filter hf)⟩

theorem noReference_setField {k : String} (hk : k ≠ "$work_media") {v : Json}
    {fs : List (String × Json)} (h : NoReferenceFields fs) (hv : NoReference v) :
    NoReference (.obj (Json.setField k v fs)) := by
  refine ⟨?_, noReferenceFields_iff.mpr fun f hf => ?_⟩
  · cases fs with
    | nil => exact if_neg hk
    | cons f rest =>
      obtain ⟨l, w⟩ := f
      unfold Json.setField
      split
      · cases rest with
        | nil => exact if_neg hk
        | cons g rest => rfl
      · cases rest with
        | nil => rfl
        | cons g rest =>
          obtain ⟨l', w'⟩ := g
          unfold Json.setField
          split <;> rfl
  · obtain rfl | hf := mem_setField hf
    · exact hv
    · exact noReferenceFields_iff.mp h f hf

theorem setField_of_lookup_none {k : String} {fs : List (String × Json)}
    (h : fs.lookup k = none) (v : Json) : Json.setField k v fs = fs ++ [(k, v)] := by
  induction fs with
  | nil => rfl
  | cons f fs ih =>
    obtain ⟨l, w⟩ := f
    rw [Json.lookup_cons] at h
    split at h
    · cases h
    · rename_i hk
      rw [Json.setField, if_neg fun hl => hk hl.symm, ih h]
      rfl

theorem filter_of_lookup_none {k : String} {fs : List (String × Json)}
    (h : fs.lookup k = none) : (fs.filter fun f => f.1 != k) = fs := by
  refine List.filter_eq_self.mpr fun f hf => ?_
  have hne := List.lookup_eq_none_iff.mp h f hf
  simpa [bne, BEq.comm] using hne

theorem setField_setField (k : String) (v w : Json) (fs : List (String × Json)) :
    Json.setField k w (Json.setField k v fs) = Json.setField k w fs := by
  induction fs with
  | nil => simp [Json.setField]
  | cons f fs ih =>
    obtain ⟨l, x⟩ := f
    by_cases hl : l = k
    · simp [Json.setField, hl]
    · simp [Json.setField, hl, ih]

/-! The progress. -/

/-- A progress that a manifest can take apart and put together. -/
structure PlainProgress (fields : List (String × Json)) : Prop where
  refs : fields.lookup "model_observation_refs" = none
  observations : ∀ o, fields.lookup "model_observations" = some o → ∃ xs, o = .arr xs

/-- The progress as it comes back: the observations stand at its end. -/
def restoredProgress (fields : List (String × Json)) : List (String × Json) :=
  match fields.lookup "model_observations" with
  | some o => Json.setField "model_observations" o
      (fields.filter fun f => f.1 != "model_observations")
  | none => fields

def restoredMetadata (fields : List (String × Json)) : List (String × Json) :=
  match fields.lookup "progress" with
  | some (.obj progress) => Json.setField "progress" (.obj (restoredProgress progress)) fields
  | _ => fields

theorem written_of_lookup {k : String} {v : Json} {fs : List (String × Json)}
    (h : Json.WrittenFields fs) (hk : fs.lookup k = some v) : v.Written :=
  writtenFields_iff.mp h (k, v) (Dict.mem_of_lookup hk)

theorem writtenItems_iff {xs : List Json} : Json.WrittenItems xs ↔ ∀ x ∈ xs, x.Written := by
  induction xs with
  | nil => simp [Json.WrittenItems]
  | cons x xs ih => simp [Json.WrittenItems, ih]

theorem getD_progress {fields progress : List (String × Json)}
    (h : fields.lookup "progress" = some (.obj progress)) :
    Json.getD (.obj fields) "progress" (.obj []) = .obj progress := by
  rw [Json.getD, Json.get?_obj, h]
  rfl

/-- The progress of the metadata, if there is one, is plain. -/
def PlainMetadata (fields : List (String × Json)) : Prop :=
  ∀ p, fields.lookup "progress" = some p → ∃ progress, p = .obj progress ∧ PlainProgress progress

/-- What holds of the members of the progress and of the metadata holds of those restored. -/
theorem mem_restoredProgress {fields : List (String × Json)} {f : String × Json}
    (h : f ∈ restoredProgress fields) : f ∈ fields := by
  unfold restoredProgress at h
  split at h
  · rename_i o ho
    obtain rfl | hf := mem_setField h
    · exact Dict.mem_of_lookup ho
    · exact List.mem_of_mem_filter hf
  · exact h

theorem written_restoredProgress {fields : List (String × Json)} (h : (Json.obj fields).Written) :
    (Json.obj (restoredProgress fields)).Written := by
  unfold restoredProgress
  split
  · rename_i o ho
    exact written_setField (written_filter h) (written_of_lookup h.2 ho)
  · exact h

theorem noReference_restoredProgress {fields : List (String × Json)}
    (h : NoReference (.obj fields)) : NoReference (.obj (restoredProgress fields)) := by
  have hmem : ∀ f ∈ restoredProgress fields, NoReference f.2 := fun f hf =>
    noReferenceFields_iff.mp h.2 f (mem_restoredProgress hf)
  unfold restoredProgress at hmem ⊢
  split
  · rename_i o ho
    refine noReference_setField (by decide) ?_
      (noReferenceFields_iff.mp h.2 _ (Dict.mem_of_lookup ho))
    exact noReferenceFields_iff.mpr fun f hf =>
      noReferenceFields_iff.mp h.2 f (List.mem_of_mem_filter hf)
  · exact h

theorem written_restoredMetadata {fields : List (String × Json)} (h : (Json.obj fields).Written) :
    (Json.obj (restoredMetadata fields)).Written := by
  unfold restoredMetadata
  split
  · rename_i progress hp
    exact written_setField h (written_restoredProgress (written_of_lookup h.2 hp))
  · exact h

theorem noReference_restoredMetadata {fields : List (String × Json)}
    (h : NoReference (.obj fields)) : NoReference (.obj (restoredMetadata fields)) := by
  unfold restoredMetadata
  split
  · rename_i progress hp
    exact noReference_setField (by decide) h.2 (noReference_restoredProgress
      (noReferenceFields_iff.mp h.2 _ (Dict.mem_of_lookup hp)))
  · exact h

theorem images_restoredMetadata {fields : List (String × Json)} {s : String}
    (h : s ∈ imagesFields (restoredMetadata fields)) : s ∈ imagesFields fields := by
  obtain ⟨f, hf, hs⟩ := mem_imagesFields.mp h
  unfold restoredMetadata at hf
  split at hf
  · rename_i progress hp
    obtain rfl | hf := mem_setField hf
    · obtain ⟨g, hg, hs⟩ := mem_imagesFields.mp hs
      exact mem_imagesFields.mpr ⟨_, Dict.mem_of_lookup hp,
        mem_imagesFields.mpr ⟨g, mem_restoredProgress hg, hs⟩⟩
    · exact mem_imagesFields.mpr ⟨f, hf, hs⟩
  · exact mem_imagesFields.mpr ⟨f, hf, hs⟩

section Objects

variable [Content String]

/-- The text of one reference. -/
def hydrateReference (blobs : String → Option String) : Json → Option Json
  | .str digest => (blobs digest).bind fun data =>
    if Content.hash data = digest then some (.str data) else none
  | _ => none

mutual

/-- `hydrate`; there is no value where a blob is missing or has another digest. -/
def hydrate (blobs : String → Option String) : Json → Option Json
  | .obj fields =>
    match reference? fields with
    | some v => hydrateReference blobs v
    | none => (hydrateFields blobs fields).map .obj
  | .arr items => (hydrateItems blobs items).map .arr
  | j => some j

def hydrateItems (blobs : String → Option String) : List Json → Option (List Json)
  | [] => some []
  | x :: xs => do
    let y ← hydrate blobs x
    let ys ← hydrateItems blobs xs
    return y :: ys

def hydrateFields (blobs : String → Option String) :
    List (String × Json) → Option (List (String × Json))
  | [] => some []
  | (k, v) :: fs => do
    let w ← hydrate blobs v
    let ws ← hydrateFields blobs fs
    return (k, w) :: ws

end

/-! The objects of a manifest. -/

/-- `get_bytes`. -/
def getBytes (files : Files String) (digest : String) : Option String :=
  (files digest).bind fun file =>
    if Content.hash file.content = digest then some file.content else none

/-- `get`. -/
def getObject (files : Files String) : Json → Read Json
  | .str digest => expect ((getBytes files digest).bind Json.loads) .corrupt
  | _ => .error .corrupt

/-- The observations come back at the end of the progress. -/
def hydrateProgress (files : Files String) : Json → Read Json
  | .obj fields =>
    let progress := Json.obj fields
    match progress.get? "model_observation_refs" with
    | none => .ok progress
    | some refs => do
      let digests ← iterate refs
      let observations ← digests.mapM (getObject files)
      return (progress.erase "model_observation_refs").set "model_observations" (.arr observations)
  | .arr xs => if .str "model_observation_refs" ∈ xs then .error .corrupt else .ok (.arr xs)
  | .str s => if "model_observation_refs".toList <:+: s.toList then .error .attributeError
    else .ok (.str s)
  | _ => .error .corrupt

def hydrateMetadata (files : Files String) (metadata : Json) : Read Json :=
  if metadata.isObj then
    match metadata.get? "progress" with
    | none => .ok metadata
    | some progress => do
      let progress ← hydrateProgress files progress
      return metadata.set "progress" progress
  else .error .attributeError

def hydrateTranscript (files : Files String) (transcript : Json) : Read Json := do
  require (transcript.isObj = true) .corrupt
  let items ← expect (transcript.get? "items") .corrupt
  let digests ← iterate items
  let records ← digests.mapM (getObject files)
  let continuation ← expect (transcript.get? "continuation") .corrupt
  let continuation ← onlyIf continuation.truthy continuation (getObject files continuation)
  return (transcript.set "items" (.arr records)).set "continuation" continuation

/-- `ProtocolStore.hydrate`. -/
def hydrateManifest (files : Files String) (manifest : Json) : Read Json :=
  if manifest.isObj = false then .error .attributeError
  else if manifest.get "format" ≠ .str "protocol_objects_v1" then .ok manifest
  else do
    let transcript ← expect (manifest.get? "transcript") .corrupt
    let transcript ← hydrateTranscript files transcript
    let metadataRef ← expect (manifest.get? "metadata_ref") .corrupt
    let metadata ← getObject files metadataRef
    let metadata ← hydrateMetadata files metadata
    let pendingRef ← expect (manifest.get? "pending_ref") .corrupt
    let pending ← getObject files pendingRef
    return .obj [("transcript", transcript), ("pending", pending), ("metadata", metadata),
      ("file_media", manifest.getD "file_media" (.arr []))]

/-! Media. -/

mutual

/-- The value with its images as references. -/
def marked : Json → Json
  | .str s => if isDataImage s then .obj [("$work_media", .str (Content.hash s))] else .str s
  | .obj fields => .obj (markedFields fields)
  | .arr items => .arr (markedItems items)
  | j => j

def markedItems : List Json → List Json
  | [] => []
  | x :: xs => marked x :: markedItems xs

def markedFields : List (String × Json) → List (String × Json)
  | [] => []
  | (k, v) :: fs => (k, marked v) :: markedFields fs

end

def addBlobs (blobs : Blobs) (texts : List String) : Blobs :=
  texts.foldl (fun blobs text => Dict.set blobs (Content.hash text) text) blobs

theorem addBlobs_append (blobs : Blobs) (as bs : List String) :
    addBlobs blobs (as ++ bs) = addBlobs (addBlobs blobs as) bs :=
  List.foldl_append

mutual

theorem externalize_eq : (j : Json) → (blobs : Blobs) →
    externalize j blobs = (marked j, addBlobs blobs (images j))
  | .str s, blobs => by
    unfold externalize marked images
    split <;> rfl
  | .obj fields, blobs => by rw [externalize, externalizeFields_eq]; rfl
  | .arr items, blobs => by rw [externalize, externalizeItems_eq]; rfl
  | .null, _ => rfl
  | .bool _, _ => rfl
  | .int _, _ => rfl
  | .real _ _, _ => rfl

theorem externalizeItems_eq : (xs : List Json) → (blobs : Blobs) →
    externalizeItems xs blobs = (markedItems xs, addBlobs blobs (imagesItems xs))
  | [], _ => rfl
  | x :: xs, blobs => by
    rw [externalizeItems, externalize_eq x, externalizeItems_eq xs, imagesItems, addBlobs_append]
    rfl

theorem externalizeFields_eq : (fs : List (String × Json)) → (blobs : Blobs) →
    externalizeFields fs blobs = (markedFields fs, addBlobs blobs (imagesFields fs))
  | [], _ => rfl
  | (k, v) :: fs, blobs => by
    rw [externalizeFields, externalize_eq v, externalizeFields_eq fs, imagesFields,
      addBlobs_append]
    rfl

end

theorem reference?_markedFields {fs : List (String × Json)} (h : reference? fs = none) :
    reference? (markedFields fs) = none := by
  cases fs with
  | nil => rfl
  | cons f rest =>
    obtain ⟨k, v⟩ := f
    cases rest with
    | nil =>
      by_cases hk : k = "$work_media"
      · exact absurd ((if_pos hk).symm.trans h) (Option.some_ne_none v)
      · exact if_neg hk
    | cons g rest => rfl

mutual

/-- The images come back where their texts are known. -/
theorem hydrate_marked {blobs : String → Option String} : (j : Json) → NoReference j →
    (∀ s ∈ images j, blobs (Content.hash s) = some s) → hydrate blobs (marked j) = some j
  | .str s, _, hblobs => by
    unfold marked
    split
    · rename_i hs
      have hblob := hblobs s (by simp [images, hs])
      simp [hydrate, reference?, hydrateReference, hblob]
    · rfl
  | .obj fields, h, hblobs => by
    rw [marked, hydrate, reference?_markedFields h.1]
    dsimp only
    rw [hydrateFields_marked fields h.2 hblobs]
    rfl
  | .arr items, h, hblobs => by
    rw [marked, hydrate, hydrateItems_marked items h hblobs]
    rfl
  | .null, _, _ => rfl
  | .bool _, _, _ => rfl
  | .int _, _, _ => rfl
  | .real _ _, _, _ => rfl

theorem hydrateItems_marked {blobs : String → Option String} : (xs : List Json) →
    NoReferenceItems xs → (∀ s ∈ imagesItems xs, blobs (Content.hash s) = some s) →
    hydrateItems blobs (markedItems xs) = some xs
  | [], _, _ => rfl
  | x :: xs, h, hblobs => by
    rw [markedItems, hydrateItems,
      hydrate_marked x h.1 fun s hs => hblobs s (List.mem_append_left _ hs),
      hydrateItems_marked xs h.2 fun s hs => hblobs s (List.mem_append_right _ hs)]
    rfl

theorem hydrateFields_marked {blobs : String → Option String} : (fs : List (String × Json)) →
    NoReferenceFields fs → (∀ s ∈ imagesFields fs, blobs (Content.hash s) = some s) →
    hydrateFields blobs (markedFields fs) = some fs
  | [], _, _ => rfl
  | (k, v) :: fs, h, hblobs => by
    rw [markedFields, hydrateFields,
      hydrate_marked v h.1 fun s hs => hblobs s (List.mem_append_left _ hs),
      hydrateFields_marked fs h.2 fun s hs => hblobs s (List.mem_append_right _ hs)]
    rfl

end

mutual

/-- The references are those of the images. -/
theorem references_marked : (j : Json) → NoReference j →
    references (marked j) = some ((images j).map fun s => .str (Content.hash s))
  | .str s, _ => by
    unfold marked images
    split
    · simp [references, reference?, hashable]
    · rfl
  | .obj fields, h => by
    rw [marked, references, reference?_markedFields h.1]
    exact referencesFields_marked fields h.2
  | .arr items, h => referencesItems_marked items h
  | .null, _ => rfl
  | .bool _, _ => rfl
  | .int _, _ => rfl
  | .real _ _, _ => rfl

theorem referencesItems_marked : (xs : List Json) → NoReferenceItems xs →
    referencesItems (markedItems xs) = some ((imagesItems xs).map fun s => .str (Content.hash s))
  | [], _ => rfl
  | x :: xs, h => by
    rw [markedItems, referencesItems, references_marked x h.1, referencesItems_marked xs h.2,
      imagesItems, List.map_append]
    rfl

theorem referencesFields_marked : (fs : List (String × Json)) → NoReferenceFields fs →
    referencesFields (markedFields fs) =
      some ((imagesFields fs).map fun s => .str (Content.hash s))
  | [], _ => rfl
  | (k, v) :: fs, h => by
    rw [markedFields, referencesFields, references_marked v h.1, referencesFields_marked fs h.2,
      imagesFields, List.map_append]
    rfl

end

mutual

theorem marked_of_images_nil : (j : Json) → images j = [] → marked j = j
  | .str s, h => by
    unfold images at h
    unfold marked
    split at h
    · cases h
    · rename_i hs
      rw [if_neg hs]
  | .obj fields, h => congrArg Json.obj (markedFields_of_images_nil fields h)
  | .arr items, h => congrArg Json.arr (markedItems_of_images_nil items h)
  | .null, _ => rfl
  | .bool _, _ => rfl
  | .int _, _ => rfl
  | .real _ _, _ => rfl

theorem markedItems_of_images_nil : (xs : List Json) → imagesItems xs = [] → markedItems xs = xs
  | [], _ => rfl
  | x :: xs, h => by
    obtain ⟨hx, hxs⟩ := List.append_eq_nil_iff.mp h
    rw [markedItems, marked_of_images_nil x hx, markedItems_of_images_nil xs hxs]

theorem markedFields_of_images_nil : (fs : List (String × Json)) → imagesFields fs = [] →
    markedFields fs = fs
  | [], _ => rfl
  | (k, v) :: fs, h => by
    obtain ⟨hv, hfs⟩ := List.append_eq_nil_iff.mp h
    rw [markedFields, marked_of_images_nil v hv, markedFields_of_images_nil fs hfs]

end

theorem keys_markedFields (fs : List (String × Json)) :
    (markedFields fs).map (·.1) = fs.map (·.1) := by
  induction fs with
  | nil => rfl
  | cons f fs ih =>
    obtain ⟨k, v⟩ := f
    exact congrArg (k :: ·) ih

mutual

theorem written_marked : (j : Json) → j.Written → (marked j).Written
  | .str s, _ => by
    unfold marked
    split
    · exact ⟨List.nodup_singleton _, trivial, trivial⟩
    · trivial
  | .obj fields, h => ⟨by rw [keys_markedFields]; exact h.1, writtenFields_marked fields h.2⟩
  | .arr items, h => writtenItems_marked items h
  | .null, _ => trivial
  | .bool _, _ => trivial
  | .int _, _ => trivial
  | .real _ _, h => h

theorem writtenItems_marked : (xs : List Json) → Json.WrittenItems xs →
    Json.WrittenItems (markedItems xs)
  | [], _ => trivial
  | x :: xs, h => ⟨written_marked x h.1, writtenItems_marked xs h.2⟩

theorem writtenFields_marked : (fs : List (String × Json)) → Json.WrittenFields fs →
    Json.WrittenFields (markedFields fs)
  | [], _ => trivial
  | (_, v) :: fs, h => ⟨written_marked v h.1, writtenFields_marked fs h.2⟩

end

/-! Fields. -/

theorem lookup_markedFields (k : String) (fs : List (String × Json)) :
    (markedFields fs).lookup k = (fs.lookup k).map marked := by
  induction fs with
  | nil => rfl
  | cons f fs ih =>
    obtain ⟨l, v⟩ := f
    rw [markedFields, Json.lookup_cons, Json.lookup_cons, ih]
    split <;> rfl

theorem setField_markedFields (k : String) (v : Json) (fs : List (String × Json)) :
    Json.setField k (marked v) (markedFields fs) = markedFields (Json.setField k v fs) := by
  induction fs with
  | nil => rfl
  | cons f fs ih =>
    obtain ⟨l, w⟩ := f
    unfold markedFields Json.setField
    split
    · rfl
    · rw [ih]

theorem filter_markedFields (p : String → Bool) (fs : List (String × Json)) :
    ((markedFields fs).filter fun f => p f.1) = markedFields (fs.filter fun f => p f.1) := by
  induction fs with
  | nil => rfl
  | cons f fs ih =>
    obtain ⟨k, v⟩ := f
    by_cases hk : p k = true
    · simp only [markedFields, List.filter_cons, hk, if_true, ih]
    · simp only [markedFields, List.filter_cons, hk, Bool.false_eq_true, if_false, ih]

/-! Objects. -/

/-- The text is in the file of its digest. -/
def Holds (files : Files String) (text : String) : Prop :=
  (files (Content.hash text)).map (·.content) = some text

theorem getBytes_of_holds {files : Files String} {text : String} (h : Holds files text) :
    getBytes files (Content.hash text) = some text := by
  obtain ⟨file, hfile, rfl⟩ := Option.map_eq_some_iff.mp h
  unfold getBytes
  rw [hfile]
  exact if_pos rfl

theorem getObject_put {files : Files String} {j : Json} (hj : j.Written)
    (h : Holds files j.dumps) : getObject files (.str (put j).1) = .ok j := by
  rw [put, getObject, getBytes_of_holds h, Option.bind_some, Json.loads_dumps hj]
  rfl

theorem putAll_eq (xs : List Json) :
    putAll xs = (xs.map fun x => .str (put x).1, xs.map Json.dumps) := by
  induction xs with
  | nil => rfl
  | cons x xs ih =>
    rw [putAll, ih]
    rfl

theorem putItems_nil_eq (xs : List Json) :
    putItems [] xs = (xs.map fun x => .str (put x).1, xs.map Json.dumps) := by
  induction xs with
  | nil => rfl
  | cons x xs ih =>
    rw [putItems, List.tail_nil, ih]
    · rfl
    · exact fun _ _ h => by cases h

theorem mapM_getObject {files : Files String} {xs : List Json} (hxs : ∀ x ∈ xs, x.Written)
    (h : ∀ x ∈ xs, Holds files x.dumps) :
    (xs.map fun x => Json.str (put x).1).mapM (getObject files) = .ok xs := by
  induction xs with
  | nil => rfl
  | cons x xs ih =>
    rw [List.map_cons, List.mapM_cons,
      getObject_put (hxs x List.mem_cons_self) (h x List.mem_cons_self),
      ih (fun y hy => hxs y (List.mem_cons_of_mem _ hy))
        fun y hy => h y (List.mem_cons_of_mem _ hy)]
    rfl

/-! The metadata. -/

theorem marked_restoredProgress (fields : List (String × Json)) :
    restoredProgress (markedFields fields) = markedFields (restoredProgress fields) := by
  unfold restoredProgress
  rw [lookup_markedFields]
  cases fields.lookup "model_observations" with
  | none => rfl
  | some o =>
    dsimp only [Option.map_some]
    rw [filter_markedFields (fun k => k != "model_observations"), setField_markedFields]

theorem observed_of_none {fields progress : List (String × Json)}
    (hprogress : Json.getD (.obj fields) "progress" (.obj []) = .obj progress)
    (h : progress.lookup "model_observations" = none) :
    observed (.obj fields) = (.obj fields, []) := by
  unfold observed
  rw [hprogress]
  simp [Json.has, Json.get?, Json.fields, h]

theorem observed_of_some {fields progress : List (String × Json)} {xs : List Json}
    (hprogress : Json.getD (.obj fields) "progress" (.obj []) = .obj progress)
    (h : progress.lookup "model_observations" = some (.arr xs)) :
    observed (.obj fields) = (.obj (Json.setField "progress" (.obj
      (Json.setField "model_observation_refs" (.arr (xs.map fun x => .str (put x).1))
        (progress.filter fun f => f.1 != "model_observations"))) fields), xs.map Json.dumps) := by
  unfold observed
  rw [hprogress]
  simp [Json.has, Json.get, Json.getD, Json.get?, Json.fields, h, items, putAll_eq, Json.set,
    Json.erase]

/-- The observations are put back where only their digests stood. -/
theorem hydrateProgress_refs {files : Files String} {progress : List (String × Json)}
    {xs : List Json} (hplain : PlainProgress progress) (hxs : ∀ x ∈ xs, x.Written)
    (hfiles : ∀ x ∈ xs, Holds files x.dumps) :
    hydrateProgress files (.obj (Json.setField "model_observation_refs"
      (.arr (xs.map fun x => .str (put x).1))
      (progress.filter fun f => f.1 != "model_observations"))) =
      .ok (.obj (Json.setField "model_observations" (.arr xs)
        (progress.filter fun f => f.1 != "model_observations"))) := by
  have hnone : (progress.filter fun f => f.1 != "model_observations").lookup
      "model_observation_refs" = none := by
    rw [Json.lookup_filter (fun k => k != "model_observations"), hplain.refs]
    rfl
  have hget : (Json.obj (Json.setField "model_observation_refs"
      (.arr (xs.map fun x => .str (put x).1))
      (progress.filter fun f => f.1 != "model_observations"))).get? "model_observation_refs" =
      some (.arr (xs.map fun x => .str (put x).1)) := by
    rw [Json.get?_obj, Json.lookup_setField, if_pos rfl]
  have herase : (Json.obj (Json.setField "model_observation_refs"
      (.arr (xs.map fun x => .str (put x).1))
      (progress.filter fun f => f.1 != "model_observations"))).erase "model_observation_refs" =
      .obj (progress.filter fun f => f.1 != "model_observations") := by
    rw [Json.erase, Json.fields, setField_of_lookup_none hnone, List.filter_append,
      filter_of_lookup_none hnone]
    simp
  unfold hydrateProgress
  dsimp only
  rw [hget]
  simp only [iterate, ok_bind, mapM_getObject hxs hfiles, herase]
  rfl

/-- What `observed` writes comes back as the metadata it was given, but for the order of
the progress. -/
theorem hydrateMetadata_observed {files : Files String} {fields : List (String × Json)}
    (hw : (Json.obj fields).Written)
    (hprogress : PlainMetadata fields)
    (hfiles : ∀ text ∈ (observed (.obj fields)).2, Holds files text) :
    (observed (.obj fields)).1.Written ∧
      hydrateMetadata files (observed (.obj fields)).1 = .ok (.obj (restoredMetadata fields)) := by
  cases hlookup : fields.lookup "progress" with
  | none =>
    have hempty : Json.getD (.obj fields) "progress" (.obj []) = .obj [] := by
      rw [Json.getD, Json.get?_obj, hlookup]
      rfl
    rw [observed_of_none hempty rfl]
    refine ⟨hw, ?_⟩
    simp [hydrateMetadata, Json.isObj, hlookup, restoredMetadata]
  | some p =>
    obtain ⟨progress, rfl, hplain⟩ := hprogress p hlookup
    have hprogress := getD_progress hlookup
    have hwp : (Json.obj progress).Written := written_of_lookup hw.2 hlookup
    cases hobs : progress.lookup "model_observations" with
    | none =>
      rw [observed_of_none hprogress hobs]
      refine ⟨hw, ?_⟩
      have hback : hydrateProgress files (.obj progress) = .ok (.obj progress) := by
        unfold hydrateProgress
        dsimp only
        rw [Json.get?_obj, hplain.refs]
      have hrestored : restoredProgress progress = progress := by
        unfold restoredProgress
        rw [hobs]
      have hobj : (Json.obj fields).isObj = true := rfl
      unfold hydrateMetadata restoredMetadata
      dsimp only
      rw [if_pos hobj, Json.get?_obj, hlookup]
      dsimp only
      rw [hback, hrestored]
      rfl
    | some o =>
      obtain ⟨xs, rfl⟩ := hplain.observations o hobs
      rw [observed_of_some hprogress hobs] at hfiles ⊢
      have hxs : ∀ x ∈ xs, x.Written := writtenItems_iff.mp (written_of_lookup hwp.2 hobs)
      have hback := hydrateProgress_refs hplain hxs fun x hx =>
        hfiles _ (List.mem_map_of_mem hx)
      refine ⟨written_setField hw (written_setField (written_filter hwp) ?_), ?_⟩
      · exact writtenItems_iff.mpr fun x hx => by
          obtain ⟨y, -, rfl⟩ := List.mem_map.mp hx
          trivial
      · unfold hydrateMetadata
        simp only [Json.isObj, if_true, Json.get?_obj, Json.lookup_setField, hback, ok_bind,
          Json.set, Json.fields, setField_setField]
        simp [restoredMetadata, hlookup, restoredProgress, hobs]

theorem marked_restoredMetadata {fields : List (String × Json)} (h : PlainMetadata fields) :
    restoredMetadata (markedFields fields) = markedFields (restoredMetadata fields) := by
  unfold restoredMetadata
  rw [lookup_markedFields]
  cases hlookup : fields.lookup "progress" with
  | none => rfl
  | some p =>
    obtain ⟨progress, rfl, -⟩ := h p hlookup
    dsimp only [Option.map_some, marked]
    rw [marked_restoredProgress, ← setField_markedFields, marked]

theorem plainMetadata_marked {fields : List (String × Json)} (h : PlainMetadata fields) :
    PlainMetadata (markedFields fields) := by
  intro p hp
  rw [lookup_markedFields] at hp
  obtain ⟨q, hq, rfl⟩ := Option.map_eq_some_iff.mp hp
  obtain ⟨progress, rfl, hplain⟩ := h q hq
  refine ⟨markedFields progress, rfl, ?_, ?_⟩
  · rw [lookup_markedFields, hplain.refs]
    rfl
  · intro o ho
    rw [lookup_markedFields] at ho
    obtain ⟨o', ho', rfl⟩ := Option.map_eq_some_iff.mp ho
    obtain ⟨xs, rfl⟩ := hplain.observations o' ho'
    exact ⟨markedItems xs, rfl⟩

/-! The whole manifest. -/

/-- What is prepared for a manifest. -/
def preparedPayload (chain : Json) (count : Int) (records : List Json)
    (continuation pending : Json) (metadata : List (String × Json)) (media : Json) : Json :=
  .obj [("transcript", .obj [("chain_id", chain), ("messages_count", .int count),
      ("items", .arr records), ("continuation", continuation)]),
    ("pending", pending), ("metadata", .obj metadata), ("file_media", media)]

theorem hydrateTranscript_put {files : Files String} (chain count : Json) {continuation : Json}
    {records : List Json} (hrecords : ∀ r ∈ records, r.Written)
    (hcontinuation : continuation.Written)
    (hcheckpoint : continuation = .null ∨ continuation.truthy = true)
    (hdigest : ∀ text : String, Content.hash text ≠ "")
    (hfiles : ∀ r ∈ records, Holds files r.dumps)
    (hfile : continuation.truthy = true → Holds files continuation.dumps) :
    hydrateTranscript files (.obj [("chain_id", chain), ("messages_count", count),
        ("items", .arr (records.map fun r => .str (put r).1)),
        ("continuation", if continuation.truthy then .str (put continuation).1 else .null)]) =
      .ok (.obj [("chain_id", chain), ("messages_count", count), ("items", .arr records),
        ("continuation", continuation)]) := by
  have hback : onlyIf (Json.truthy (if continuation.truthy then .str (put continuation).1
        else .null)) (if continuation.truthy then .str (put continuation).1 else .null)
      (getObject files (if continuation.truthy then .str (put continuation).1 else .null)) =
      .ok continuation := by
    obtain rfl | ht := hcheckpoint
    · rfl
    · have hne : Json.truthy (.str (put continuation).1) = true := by
        simpa [Json.truthy, put] using hdigest continuation.dumps
      rw [if_pos ht, hne, getObject_put hcontinuation (hfile ht)]
      rfl
  have hmapM := mapM_getObject hrecords hfiles
  unfold hydrateTranscript
  simp only [Json.isObj, Json.get?_obj, Json.lookup_cons, String.reduceEq, if_false, if_true]
  simp only [require_of trivial, expect, ok_bind, iterate, hmapM, hback]
  simp [Json.set, Json.setField, Json.fields, pure, Except.pure]

theorem manifest_preparedPayload (chain : Json) (count : Int) (records : List Json)
    (continuation pending : Json) (metadata : List (String × Json)) (media : Json) :
    manifest (preparedPayload chain count records continuation pending metadata media) [] =
      (.obj [("format", .str "protocol_objects_v1"),
        ("transcript", .obj [("chain_id", chain), ("messages_count", .int count),
          ("items", .arr (records.map fun r => .str (put r).1)),
          ("continuation", if continuation.truthy then .str (put continuation).1 else .null)]),
        ("pending_ref", .str (put pending).1),
        ("metadata_ref", .str (put (observed (.obj metadata)).1).1), ("file_media", media)],
      records.map Json.dumps ++ (if continuation.truthy then [continuation.dumps] else []) ++
        (observed (.obj metadata)).2 ++ [pending.dumps] ++
        [(observed (.obj metadata)).1.dumps]) := by
  by_cases ht : continuation.truthy = true <;>
    simp [manifest, preparedPayload, Json.get, Json.getD, Json.set, Json.setField, Json.fields,
      items, putItems_nil_eq, List.lookup_cons, ht, put]

theorem written_manifest {chain continuation pending media : Json} {count : Int}
    {records : List Json} {metadata : List (String × Json)} (hchain : chain.Written)
    (hmedia : media.Written) :
    (manifest (preparedPayload chain count records continuation pending metadata media)
      []).1.Written := by
  have hrecords : Json.WrittenItems (records.map fun r => .str (put r).1) :=
    writtenItems_iff.mpr fun x hx => by
      obtain ⟨r, -, rfl⟩ := List.mem_map.mp hx
      trivial
  have hcheckpoint : Json.Written
      (if continuation.truthy then .str (put continuation).1 else .null) := by
    split <;> trivial
  have hkeys : ["format", "transcript", "pending_ref", "metadata_ref", "file_media"].Nodup := by
    decide
  have htranscript : ["chain_id", "messages_count", "items", "continuation"].Nodup := by decide
  rw [manifest_preparedPayload]
  exact ⟨hkeys, trivial, ⟨htranscript, hchain, trivial, hrecords, hcheckpoint, trivial⟩,
    trivial, trivial, hmedia, trivial⟩

/-- A manifest is put together again from the files of its objects. -/
theorem hydrateManifest_manifest {files : Files String} {chain continuation pending media : Json}
    {count : Int} {records : List Json} {metadata : List (String × Json)}
    (hrecords : ∀ r ∈ records, r.Written) (hcontinuation : continuation.Written)
    (hcheckpoint : continuation = .null ∨ continuation.truthy = true) (hpending : pending.Written)
    (hmetadata : (Json.obj metadata).Written) (hprogress : PlainMetadata metadata)
    (hdigest : ∀ text : String, Content.hash text ≠ "")
    (hfiles : ∀ text ∈ (manifest (preparedPayload chain count records continuation pending
      metadata media) []).2, Holds files text) :
    hydrateManifest files (manifest (preparedPayload chain count records continuation pending
        metadata media) []).1 =
      .ok (preparedPayload chain count records continuation pending (restoredMetadata metadata)
        media) := by
  rw [manifest_preparedPayload] at hfiles ⊢
  simp only [List.mem_append, List.mem_singleton] at hfiles
  obtain ⟨hobserved, hback⟩ := hydrateMetadata_observed hmetadata hprogress
    fun text ht => hfiles text (.inl (.inl (.inr ht)))
  have htranscript := hydrateTranscript_put chain (.int count) hrecords hcontinuation
    hcheckpoint hdigest
    (fun r hr => hfiles _ (.inl (.inl (.inl (.inl (List.mem_map_of_mem hr))))))
    (fun ht => hfiles _ (.inl (.inl (.inl (.inr (by simp [ht]))))))
  have hmeta := getObject_put hobserved (hfiles _ (.inr rfl))
  have hpend := getObject_put hpending (hfiles _ (.inl (.inr rfl)))
  unfold hydrateManifest
  simp only [Json.isObj, Json.get, Json.getD, Json.get?_obj, Json.lookup_cons, String.reduceEq,
    if_false, if_true, Option.getD_some, ne_eq, not_true_eq_false, Bool.true_eq_false, expect,
    ok_bind, htranscript, hmeta, hback, hpend]
  rfl

end Objects

end Yuki.Manifest

import Yuki.Compaction.TurnRequest
import Yuki.Lib.Dict
import Yuki.Lib.PyText
import Yuki.Protocol.Store

/-! The manifest of a saved Work: media and protocol records become objects, and
their digests stand in the manifest. -/

namespace Yuki.Manifest

open Compaction Content

/-! `asdict` of the records. -/

def intOrNull : Option Int → Json
  | some n => .int n
  | none => .null

def callJson (call : ToolCall) : Json :=
  .obj [("id", .str call.id),
    ("function", .obj [("name", .str call.function.name),
      ("arguments", .str call.function.arguments)]),
    ("type", .str call.type)]

def imageJson (image : ChatImage) : Json :=
  .obj [("data_url", .str image.dataUrl), ("source", .str image.source),
    ("video_timestamp_seconds", image.videoTimestampSeconds.getD .null),
    ("conversation_id", strOrNull image.conversationId),
    ("generation", intOrNull image.generation),
    ("source_event_id", intOrNull image.sourceEventId),
    ("attachment_index", intOrNull image.attachmentIndex),
    ("content_hash", strOrNull image.contentHash), ("expires_at", strOrNull image.expiresAt),
    ("artifact_id", strOrNull image.artifactId),
    ("workspace_path", strOrNull image.workspacePath), ("version", strOrNull image.version),
    ("tool_handle", strOrNull image.toolHandle), ("plugin_id", strOrNull image.pluginId),
    ("plugin_media_handle", strOrNull image.pluginMediaHandle),
    ("plugin_tool_name", strOrNull image.pluginToolName),
    ("plugin_approval_revision", strOrNull image.pluginApprovalRevision)]

/-- A tuple is a list to the encoder. -/
def payloadJson : Compaction.Payload → Json
  | .tuple values => .arr values
  | .value v => v

def continuationJson : Option ProviderContinuation → Json
  | some c => .obj [("provider", .str c.provider), ("protocol", .str c.protocol),
      ("payload", payloadJson c.payload), ("profile_id", .str c.profileId)]
  | none => .null

def messageJson (m : Compaction.ChatMessage) : Json :=
  .obj [("role", .str m.role), ("content", strOrNull m.content),
    ("tool_calls", .arr (m.toolCalls.map callJson)), ("tool_call_id", strOrNull m.toolCallId),
    ("reasoning_content", strOrNull m.reasoningContent), ("images", .arr (m.images.map imageJson)),
    ("response_item", continuationJson m.responseItem)]

/-- `_encoded_record`. -/
def encodedRecord : Record → Json
  | .message m => .obj [("kind", .str "message"), ("value", messageJson m)]
  | .output o => .obj [("kind", .str "result"),
      ("value", .obj [("call_id", .str o.callId), ("output", .str o.output)])]

def isDataImage (s : String) : Bool :=
  (afterPrefix? "data:image/" s).isSome

/-- Only deeply immutable, non-media ordinary records can skip encoding. -/
def cacheableRecord : Record → Bool
  | .output o => !([o.callId, o.output].any isDataImage)
  | .message m =>
    if m.responseItem.isSome || !m.images.isEmpty then false
    else !([some m.role, m.content, m.toolCallId, m.reasoningContent] ++
      m.toolCalls.flatMap fun call =>
        [some call.id, some call.type, some call.function.name,
          some call.function.arguments]).any fun value => value.any isDataImage

section Objects

variable [Content String]

/-! Media. -/

abbrev Blobs := Dict String String

mutual

/-- Every image string becomes a reference; its bytes join the blobs. -/
def externalize : Json → Blobs → Json × Blobs
  | .str s, blobs =>
    if isDataImage s then (.obj [("$work_media", .str (hash s))], Dict.set blobs (hash s) s)
    else (.str s, blobs)
  | .obj fields, blobs =>
    (.obj (externalizeFields fields blobs).1, (externalizeFields fields blobs).2)
  | .arr items, blobs => (.arr (externalizeItems items blobs).1, (externalizeItems items blobs).2)
  | .null, blobs => (.null, blobs)
  | .bool b, blobs => (.bool b, blobs)
  | .int n, blobs => (.int n, blobs)
  | .real m e, blobs => (.real m e, blobs)

def externalizeItems : List Json → Blobs → List Json × Blobs
  | [], blobs => ([], blobs)
  | x :: xs, blobs => ((externalize x blobs).1 :: (externalizeItems xs (externalize x blobs).2).1,
      (externalizeItems xs (externalize x blobs).2).2)

def externalizeFields : List (String × Json) → Blobs → List (String × Json) × Blobs
  | [], blobs => ([], blobs)
  | (k, v) :: fs, blobs =>
    ((k, (externalize v blobs).1) :: (externalizeFields fs (externalize v blobs).2).1,
      (externalizeFields fs (externalize v blobs).2).2)

end

/-! Objects. A put answers with the digest of its content whatever the store holds, so the
manifest is computed with the list of the contents it puts. -/

/-- `put`: the digest, and the content. -/
def put (value : Json) : String × List String :=
  (hash value.dumps, [value.dumps])

def putAll : List Json → List Json × List String
  | [] => ([], [])
  | v :: vs => (.str (put v).1 :: (putAll vs).1, (put v).2 ++ (putAll vs).2)

/-- The items of the transcript; one with a verified digest is not put again. -/
def putItems : List (Option String) → List Json → List Json × List String
  | _, [] => ([], [])
  | some digest :: digests, _ :: items =>
    (.str digest :: (putItems digests items).1, (putItems digests items).2)
  | digests, item :: items =>
    (.str (put item).1 :: (putItems digests.tail items).1,
      (put item).2 ++ (putItems digests.tail items).2)

def items : Json → List Json
  | .arr xs => xs
  | _ => []

/-- The model observations of the progress become references. -/
def observed (metadata : Json) : Json × List String :=
  let progress := metadata.getD "progress" (.obj [])
  if progress.has "model_observations" then
    let refs := putAll (items (progress.get "model_observations"))
    (metadata.set "progress"
      ((progress.erase "model_observations").set "model_observation_refs" (.arr refs.1)), refs.2)
  else (metadata, [])

/-- `manifest`. -/
def manifest (payload : Json) (digests : List (Option String)) : Json × List String :=
  let transcript := payload.get "transcript"
  let stored := putItems digests (items (transcript.get "items"))
  let transcript := transcript.set "items" (.arr stored.1)
  let continuation := transcript.get "continuation"
  let checkpoint := if continuation.truthy then
    (Json.str (put continuation).1, (put continuation).2) else (Json.null, [])
  let transcript := transcript.set "continuation" checkpoint.1
  let metadata := observed (payload.get "metadata")
  let pendingRef := put (payload.get "pending")
  let metadataRef := put metadata.1
  (.obj [("format", .str "protocol_objects_v1"), ("transcript", transcript),
      ("pending_ref", .str pendingRef.1), ("metadata_ref", .str metadataRef.1),
      ("file_media", payload.getD "file_media" (.arr []))],
    stored.2 ++ checkpoint.2 ++ metadata.2 ++ pendingRef.2 ++ metadataRef.2)

/-! The store of a journal. -/

/-- The objects, and the records encoded before. -/
structure JournalStore where
  objects : ProtocolStore String
  records : Dict Record (String × Int) := []

namespace JournalStore

/-- `put_bytes`. -/
def putBytes (store : JournalStore) (content : String) : JournalStore :=
  { store with objects := store.objects.prepare (hash content) (size content) content }

def putContents (store : JournalStore) (contents : List String) : JournalStore :=
  contents.foldl putBytes store

/-- `put_record`. -/
def putRecord (store : JournalStore) (record : Record) : String × JournalStore :=
  let text := (encodedRecord record).dumps
  match store.records.lookup record with
  | some (digest, size) =>
    (digest, { store with objects := store.objects.prepare digest size text })
  | none =>
    (hash text, { store.putBytes text with
      records := Dict.set store.records record (hash text, size text) })

/-- The loop of `save` over the records. -/
def encodeRecords (store : JournalStore) : List Record →
    (List (Option String) × List Json) × JournalStore
  | [] => (([], []), store)
  | record :: records =>
    if cacheableRecord record then
      let recorded := store.putRecord record
      let rest := recorded.2.encodeRecords records
      ((some recorded.1 :: rest.1.1, .obj [] :: rest.1.2), rest.2)
    else
      let rest := store.encodeRecords records
      ((none :: rest.1.1, encodedRecord record :: rest.1.2), rest.2)

/-- The encoded transcript around its encoded items. -/
def transcriptJson (chainId : String) (request : TranscriptRequest) (encoded : List Json) : Json :=
  .obj [("chain_id", .str chainId), ("messages_count", .int request.messages.length),
    ("items", .arr encoded), ("continuation", continuationJson request.continuation)]

def recordsOf (request : TranscriptRequest) : List Record :=
  request.messages.map .message ++ request.items

/-- `encode_transcript`. -/
def encodeTranscript (chainId : String) (entries : List Entry) : Json :=
  transcriptJson chainId (request entries) ((recordsOf (request entries)).map encodedRecord)

/-- From the externalized payload to the manifest. -/
def publish (store : JournalStore) (transcript pending metadata : Json)
    (digests : List (Option String)) : Json × JournalStore :=
  let externalized := externalize
    (.obj [("transcript", transcript), ("pending", pending), ("metadata", metadata)]) []
  let store := store.putContents (externalized.2.map (·.2))
  let prepared := externalized.1.set "file_media"
    (.arr ((Dict.keys externalized.2).map .str))
  let result := manifest prepared digests
  (result.1, store.putContents result.2)

/-- The manifest and the objects of `save`. -/
def save (store : JournalStore) (chainId : String) (entries : List Entry)
    (pending : List Json) (metadata : Dict String Json) : Json × JournalStore :=
  let encoded := store.encodeRecords (recordsOf (request entries))
  encoded.2.publish (transcriptJson chainId (request entries) encoded.1.2) (.arr pending)
    (.obj metadata) encoded.1.1

/-- The same without precomputed digests. -/
def savePlain (store : JournalStore) (chainId : String) (entries : List Entry)
    (pending : List Json) (metadata : Dict String Json) : Json × JournalStore :=
  store.publish (encodeTranscript chainId entries) (.arr pending) (.obj metadata) []

/-- The stores that puts, cached records and ended publications leave. -/
inductive Reached : JournalStore → Prop
  | new (policy : StoragePolicy) : Reached ⟨{ policy }, []⟩
  | put {store : JournalStore} (before : Reached store) (content : String) :
      Reached (store.putBytes content)
  | record {store : JournalStore} (before : Reached store) (record : Record)
      (cacheable : cacheableRecord record = true) : Reached (store.putRecord record).2
  | close {store : JournalStore} (before : Reached store) (published : Bool) :
      Reached { store with objects := store.objects.close published }

end JournalStore

end Objects

end Yuki.Manifest

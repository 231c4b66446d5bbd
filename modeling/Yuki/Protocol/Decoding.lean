import Yuki.Compaction.TurnTranscript
import Yuki.Protocol.Manifest

/-! `decode_transcript` and what it makes of an encoded transcript. Where the source
raises, there is no value. -/

namespace Yuki.Manifest

open Compaction JournalStore

/-! Reading fields. -/

def string? : Json → Option String
  | .str s => some s
  | _ => none

def optionalString? : Json → Option (Option String)
  | .null => some none
  | .str s => some (some s)
  | _ => none

def optionalInt? : Json → Option (Option Int)
  | .null => some none
  | .int n => some (some n)
  | _ => none

def optional : Json → Option Json
  | .null => none
  | v => some v

/-- Keyword arguments: an object without a key the constructor does not know. -/
def keywords (known : List String) (j : Json) : Bool :=
  j.isObj && j.fields.all fun f => known.contains f.1

def requireThat (b : Bool) : Option Unit :=
  if b then some () else none

/-- `ChatImage.__post_init__`. -/
def validImage (image : ChatImage) : Bool :=
  ((afterPrefix? "data:image/jpeg;base64," image.dataUrl).isSome ||
    (afterPrefix? "data:image/png;base64," image.dataUrl).isSome) &&
  ["current", "reply", "history", "workspace", "tool"].contains image.source

def imageFields : List String :=
  ["data_url", "source", "video_timestamp_seconds", "conversation_id", "generation",
    "source_event_id", "attachment_index", "content_hash", "expires_at", "artifact_id",
    "workspace_path", "version", "tool_handle", "plugin_id", "plugin_media_handle",
    "plugin_tool_name", "plugin_approval_revision"]

/-- `ChatImage(**image)`. -/
def decodeImage (j : Json) : Option ChatImage := do
  requireThat (keywords imageFields j)
  let dataUrl ← (j.get? "data_url").bind string?
  let source ← string? (j.getD "source" (.str "current"))
  let conversationId ← optionalString? (j.get "conversation_id")
  let generation ← optionalInt? (j.get "generation")
  let sourceEventId ← optionalInt? (j.get "source_event_id")
  let attachmentIndex ← optionalInt? (j.get "attachment_index")
  let contentHash ← optionalString? (j.get "content_hash")
  let expiresAt ← optionalString? (j.get "expires_at")
  let artifactId ← optionalString? (j.get "artifact_id")
  let workspacePath ← optionalString? (j.get "workspace_path")
  let version ← optionalString? (j.get "version")
  let toolHandle ← optionalString? (j.get "tool_handle")
  let pluginId ← optionalString? (j.get "plugin_id")
  let pluginMediaHandle ← optionalString? (j.get "plugin_media_handle")
  let pluginToolName ← optionalString? (j.get "plugin_tool_name")
  let pluginApprovalRevision ← optionalString? (j.get "plugin_approval_revision")
  let image : ChatImage :=
    { dataUrl, source, conversationId, generation, sourceEventId, attachmentIndex, contentHash,
      expiresAt, artifactId, workspacePath, version, toolHandle, pluginId, pluginMediaHandle,
      pluginToolName, pluginApprovalRevision
      videoTimestampSeconds := optional (j.get "video_timestamp_seconds") }
  requireThat (validImage image)
  return image

/-- `ToolFunction(**call["function"])`. -/
def decodeFunction (j : Json) : Option ToolFunction := do
  requireThat (keywords ["name", "arguments"] j)
  let name ← (j.get? "name").bind string?
  let arguments ← (j.get? "arguments").bind string?
  return ⟨name, arguments⟩

def decodeCall (j : Json) : Option ToolCall := do
  let id ← (j.get? "id").bind string?
  let type ← (j.get? "type").bind string?
  let function ← (j.get? "function").bind decodeFunction
  return ⟨id, function, type⟩

/-- `tuple(payload) if isinstance(payload, list) else payload`. -/
def decodePayload : Json → Compaction.Payload
  | .arr values => .tuple values
  | v => .value v

/-- `_continuation`. -/
def decodeContinuation (j : Json) : Option ProviderContinuation := do
  let payload ← j.get? "payload"
  let provider ← (j.get? "provider").bind string?
  let protocol ← (j.get? "protocol").bind string?
  let profileId ← string? (j.getD "profile_id" (.str ""))
  return ⟨provider, protocol, decodePayload payload, profileId⟩

def elements? : Json → Option (List Json)
  | .arr xs => some xs
  | _ => none

def messageFields : List String :=
  ["role", "content", "tool_calls", "tool_call_id", "reasoning_content", "images",
    "response_item"]

/-- The field `response_item` of a message's `data`. -/
def decodeItem (j : Json) : Option (Option ProviderContinuation) :=
  if j.truthy then (decodeContinuation j).map some else if j = .null then some none else none

/-- A message from its `data`. -/
def decodeMessage (j : Json) : Option Compaction.ChatMessage := do
  requireThat (keywords messageFields j)
  let images ← (elements? (j.getD "images" (.arr []))).bind fun xs => xs.mapM decodeImage
  let toolCalls ← (elements? (j.getD "tool_calls" (.arr []))).bind fun xs => xs.mapM decodeCall
  let responseItem ← decodeItem (j.get "response_item")
  let role ← (j.get? "role").bind string?
  let content ← optionalString? (j.get "content")
  let toolCallId ← optionalString? (j.get "tool_call_id")
  let reasoningContent ← optionalString? (j.get "reasoning_content")
  return { role, content, toolCalls, toolCallId, reasoningContent, images, responseItem }

/-- `FunctionCallOutput(**data)`. -/
def decodeOutput (j : Json) : Option FunctionCallOutput := do
  requireThat (keywords ["call_id", "output"] j)
  let callId ← (j.get? "call_id").bind string?
  let output ← (j.get? "output").bind string?
  return ⟨callId, output⟩

def decodeRecord (j : Json) : Option Record := do
  let data ← j.get? "value"
  let kind ← j.get? "kind"
  if kind = .str "result" then (decodeOutput data).map .output
  else (decodeMessage data).map .message

/-- The last loop: messages are appended, and results by `append_result`. -/
def appendRecord (t : TurnTranscript) : Record → TurnTranscript
  | .message m => t.append m
  | .output o => t.appendResult o.callId o.output

def message? : Record → Option Compaction.ChatMessage
  | .message m => some m
  | .output _ => none

def int? : Json → Option Int
  | .int n => some n
  | _ => none

/-- An index of a slice. -/
def sliceStart (length : Nat) (i : Int) : Nat :=
  if i < 0 then (i + length).toNat else i.toNat

/-- The checkpoint is accepted before the records behind it. -/
def acceptCheckpoint (t : TurnTranscript) (j : Json) : Option TurnTranscript :=
  if j.truthy then (decodeContinuation j).bind fun c => (t.accept c).toOption else some t

/-- `decode_transcript`. -/
def decodeTranscript (value : Json) : Option TurnTranscript := do
  let items ← ((value.get? "items").bind elements?).bind fun xs => xs.mapM decodeRecord
  let count ← (value.get? "messages_count").bind int?
  let cut := sliceStart items.length count
  let chainId ← (value.get? "chain_id").bind string?
  let t : TurnTranscript := ⟨chainId, ((items.take cut).filterMap message?).map .message⟩
  let t ← acceptCheckpoint t (value.get "continuation")
  return (items.drop cut).foldl appendRecord t

/-! What was encoded is decoded. -/

@[simp] theorem optionalString?_strOrNull (s : Option String) :
    optionalString? (strOrNull s) = some s := by
  cases s <;> rfl

@[simp] theorem optionalInt?_intOrNull (n : Option Int) : optionalInt? (intOrNull n) = some n := by
  cases n <;> rfl

/-- A list is not told from a tuple once it is written, and null is no timestamp. -/
structure Plain (m : Compaction.ChatMessage) : Prop where
  images : ∀ image ∈ m.images, validImage image = true ∧ image.videoTimestampSeconds ≠ some .null
  item : ∀ c ∈ m.responseItem, ∀ xs, c.payload ≠ .value (.arr xs)

theorem decodeImage_imageJson {image : ChatImage} (h : validImage image = true)
    (hvideo : image.videoTimestampSeconds ≠ some .null) :
    decodeImage (imageJson image) = some image := by
  have hoptional : optional (image.videoTimestampSeconds.getD .null) =
      image.videoTimestampSeconds := by
    cases hv : image.videoTimestampSeconds with
    | none => rfl
    | some v =>
      cases v with
      | null => exact absurd hv hvideo
      | _ => rfl
  have hkeys : keywords imageFields (imageJson image) = true := rfl
  unfold decodeImage
  rw [hkeys]
  simp [requireThat, imageJson, Json.getD, Json.get, Json.get?, Json.fields, Json.lookup_cons,
    string?, hoptional, h]

theorem decodeCall_callJson (call : ToolCall) : decodeCall (callJson call) = some call := by
  have hkeys : keywords ["name", "arguments"] (.obj [("name", .str call.function.name),
      ("arguments", .str call.function.arguments)]) = true := rfl
  simp [decodeCall, callJson, decodeFunction, hkeys, requireThat, Json.get?, Json.fields,
    Json.lookup_cons, string?]

theorem decodeContinuation_continuationJson {c : ProviderContinuation}
    (h : ∀ xs, c.payload ≠ .value (.arr xs)) :
    decodeContinuation (continuationJson (some c)) = some c := by
  have hpayload : decodePayload (payloadJson c.payload) = c.payload := by
    cases hp : c.payload with
    | tuple values => rfl
    | value v =>
      cases v with
      | arr xs => exact absurd hp (h xs)
      | _ => rfl
  simp [decodeContinuation, continuationJson, Json.getD, Json.get?, Json.fields,
    Json.lookup_cons, string?, hpayload]

theorem mapM_map {α β : Type} {f : α → β} {g : β → Option α} {xs : List α}
    (h : ∀ x ∈ xs, g (f x) = some x) : (xs.map f).mapM g = some xs := by
  induction xs with
  | nil => rfl
  | cons x xs ih =>
    rw [List.map_cons, List.mapM_cons, h x List.mem_cons_self,
      ih fun y hy => h y (List.mem_cons_of_mem _ hy)]
    rfl

theorem decodeMessage_messageJson {m : Compaction.ChatMessage} (h : Plain m) :
    decodeMessage (messageJson m) = some m := by
  have himages : (m.images.map imageJson).mapM decodeImage = some m.images :=
    mapM_map fun image hi => decodeImage_imageJson (h.images image hi).1 (h.images image hi).2
  have hcalls : (m.toolCalls.map callJson).mapM decodeCall = some m.toolCalls :=
    mapM_map fun call _ => decodeCall_callJson call
  have hkeys : keywords messageFields (messageJson m) = true := rfl
  have hitem : decodeItem (continuationJson m.responseItem) = some m.responseItem := by
    cases hi : m.responseItem with
    | none => rfl
    | some c =>
      have hc := decodeContinuation_continuationJson (h.item c hi)
      exact (if_pos rfl).trans (congrArg (Option.map some) hc)
  unfold decodeMessage
  rw [hkeys]
  simp [requireThat, messageJson, Json.getD, Json.get, Json.get?, Json.fields, Json.lookup_cons,
    string?, elements?, himages, hcalls, hitem]

theorem decodeOutput_outputJson (o : FunctionCallOutput) :
    decodeOutput (.obj [("call_id", .str o.callId), ("output", .str o.output)]) = some o := by
  have hkeys : keywords ["call_id", "output"]
      (.obj [("call_id", .str o.callId), ("output", .str o.output)]) = true := rfl
  simp [decodeOutput, hkeys, requireThat, Json.get?, Json.fields, Json.lookup_cons, string?]

/-- Records that a journal can hold. -/
def PlainRecord (r : Record) : Prop :=
  ∀ m ∈ message? r, Plain m

theorem decodeRecord_encodedRecord {r : Record} (h : PlainRecord r) :
    decodeRecord (encodedRecord r) = some r := by
  cases r with
  | message m =>
    simp [decodeRecord, encodedRecord, Json.get?, Json.fields, Json.lookup_cons,
      decodeMessage_messageJson (h m rfl)]
  | output o =>
    simp [decodeRecord, encodedRecord, Json.get?, Json.fields, Json.lookup_cons,
      decodeOutput_outputJson]

/-- Every message, every record and every checkpoint of the request. -/
structure PlainRequest (q : TranscriptRequest) : Prop where
  messages : ∀ m ∈ q.messages, Plain m
  items : ∀ r ∈ q.items, PlainRecord r
  checkpoint : ∀ c ∈ q.continuation, ∀ xs, c.payload ≠ .value (.arr xs)

theorem foldl_appendRecord {t : TurnTranscript} (h : t.continuation ≠ none) (rs : List Record) :
    rs.foldl appendRecord t = { t with entries := t.entries ++ rs.map Record.entry } := by
  induction rs generalizing t with
  | nil => simp
  | cons r rs ih =>
    have hstep : appendRecord t r = t.push r.entry := by
      cases r with
      | message m => rfl
      | output o =>
        have hnone : ¬ t.continuation.isNone = true := by
          rwa [Option.isNone_iff_eq_none]
        exact if_neg hnone
    have hnone : r.entry.continuation? = none := by cases r <;> rfl
    have hlatest : (t.push r.entry).continuation = t.continuation := by
      unfold TurnTranscript.continuation TurnTranscript.push
      rw [latestContinuation_snoc, hnone]
      rfl
    rw [List.foldl_cons, hstep, ih (by rw [hlatest]; exact h)]
    simp [TurnTranscript.push]

theorem filterMap_message?_messages (messages : List Compaction.ChatMessage) :
    (messages.map Record.message).filterMap message? = messages := by
  induction messages with
  | nil => rfl
  | cons m messages ih =>
    rw [List.map_cons, List.filterMap_cons]
    exact congrArg (m :: ·) ih

theorem acceptCheckpoint_continuationJson {t : TurnTranscript} (hfresh : t.continuation = none)
    {continuation : Option ProviderContinuation}
    (h : ∀ c ∈ continuation, ∀ xs, c.payload ≠ .value (.arr xs)) :
    acceptCheckpoint t (continuationJson continuation) = some
      { t with entries := t.entries ++ continuation.toList.map .continuation } := by
  cases continuation with
  | none => simp [acceptCheckpoint, continuationJson, Json.truthy]
  | some c =>
    have hc := decodeContinuation_continuationJson (h c rfl)
    have haccept : t.accept c = .ok (t.push (.continuation c)) := by
      simp [TurnTranscript.accept, hfresh]
    refine (if_pos rfl).trans ?_
    rw [hc, Option.bind_some, haccept]
    rfl

/-- A transcript that is decoded from its encoding holds what the request of the original holds. -/
theorem decodeTranscript_transcriptJson (chainId : String) {q : TranscriptRequest}
    (h : PlainRequest q) (hitems : q.continuation = none → q.items = []) :
    decodeTranscript (JournalStore.transcriptJson chainId q ((recordsOf q).map encodedRecord)) =
      some (TurnTranscript.ofRequest chainId q) := by
  have hrecords : ((recordsOf q).map encodedRecord).mapM decodeRecord = some (recordsOf q) := by
    refine mapM_map fun r hr => decodeRecord_encodedRecord ?_
    obtain hr | hr := List.mem_append.mp hr
    · obtain ⟨m, hm, rfl⟩ := List.mem_map.mp hr
      intro m' hm'
      cases hm'
      exact h.messages m hm
    · exact h.items r hr
  have hcut : sliceStart (recordsOf q).length (q.messages.length : Int) =
      (q.messages.map Record.message).length := by
    simp [sliceStart]
  have htake : (recordsOf q).take (q.messages.map Record.message).length =
      q.messages.map .message := List.take_left' rfl
  have hdrop : (recordsOf q).drop (q.messages.map Record.message).length = q.items :=
    List.drop_left' rfl
  have hfresh : TurnTranscript.continuation ⟨chainId, q.messages.map .message⟩ = none := by
    rw [TurnTranscript.continuation_eq, TurnTranscript.request, TurnTranscript.request_messages]
  have haccept := acceptCheckpoint_continuationJson hfresh h.checkpoint
  have hvalue : ∀ key, (transcriptJson chainId q ((recordsOf q).map encodedRecord)).get? key =
      [("chain_id", .str chainId), ("messages_count", .int q.messages.length),
        ("items", .arr ((recordsOf q).map encodedRecord)),
        ("continuation", continuationJson q.continuation)].lookup key := fun _ => rfl
  simp only [decodeTranscript, Json.get, Json.getD, hvalue, Json.lookup_cons, String.reduceEq,
    if_false, if_true, Option.bind_eq_bind, Option.bind_some, elements?, int?, string?, hrecords,
    hcut, htake, hdrop, filterMap_message?_messages, Option.getD_some, haccept]
  refine congrArg some ?_
  cases hc : q.continuation with
  | none =>
    rw [hitems hc]
    simp [TurnTranscript.ofRequest, hc, hitems hc]
  | some c =>
    rw [foldl_appendRecord]
    · simp [TurnTranscript.ofRequest, hc]
    · unfold TurnTranscript.continuation
      rw [Option.toList_some, List.map_singleton, latestContinuation_snoc]
      exact Option.some_ne_none c

end Yuki.Manifest

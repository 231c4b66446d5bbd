import Mathlib.Data.Rat.Floor
import Mathlib.Data.List.Sort
import Yuki.Lib.Dict
import Yuki.Lib.JsonText
import Yuki.Lib.PyText
import Yuki.Lib.Segment
import Yuki.Runtime.Schema

/-! Rendering of ledger events for the conversation prompt, one by one and
grouped by sender. -/

namespace Yuki

abbrev EventId := Int

inductive Direction
  | inbound
  | outbound
deriving DecidableEq

inductive EventRecord.Kind
  | message
  | externalEvent
deriving DecidableEq

abbrev MessageSegment := List (String × Json)

structure EventRecord where
  id : EventId
  senderUserId : String
  direction : Direction
  content : String
  visualSummary : String
  segments : List MessageSegment
  occurredAt : Time
  platform : String
  audioTranscript : String
  senderNickname : String
  senderGroupCard : String
  replyToMessageId : Option String
  replyToEventId : Option EventId
  origin : String
  eventKind : EventRecord.Kind
  externalSource : Option String
  externalEventType : Option String
  canonicalConversationId : Option String
  authorKind : Option String
  authorPersonId : Option String
  authorPresenceId : Option String
  authorAccountId : Option String
  suppressionStatus : Option String
  causedByEventId : Option EventId
  causedByExternalSource : Option String
  causedByExternalEventType : Option String
deriving DecidableEq

inductive Role
  | assistant
  | user
deriving DecidableEq

structure ChatMessage where
  role : Role
  content : String
deriving DecidableEq

/-- What the interpreter provides: character classes, `str` of a JSON value, time zone data. -/
structure Host where
  control : Char → Bool
  alphanumeric : Char → Bool
  str : Json → String
  utcoffset : String → Time → Int
  isoformat : Time → Int → String

/-- `a or b` on optional text. -/
def orText (a : Option String) (b : String) : String :=
  (a.filter (· ≠ "")).getD b

/-! Local times. -/

namespace Host

variable (host : Host)

/-- `local_datetime`, as seconds on the local clock. -/
def localDatetime (value : Time) (timezone : String) : Time :=
  value + host.utcoffset timezone value

def localDay (value : Time) (timezone : String) : Int :=
  ⌊host.localDatetime value timezone / 86400⌋

/-- `strftime("%H:%M:%S")` of the local time. -/
def localClock (value : Time) (timezone : String) : String :=
  let seconds := (⌊host.localDatetime value timezone⌋ % 86400).toNat
  let two (n : Nat) : String := if n < 10 then "0" ++ toString n else toString n
  two (seconds / 3600) ++ ":" ++ two (seconds / 60 % 60) ++ ":" ++ two (seconds % 60)

def localIso (value : Time) (timezone : String) : String :=
  host.isoformat value (host.utcoffset timezone value)

end Host

/-! Names and tokens. -/

/-- `" ".join(text.split())`. -/
def collapseSpaces (cs : List Char) : List Char :=
  [' '].intercalate ((cs.splitOnP isSpace).filter (· ≠ []))

def displayNameLimit : Nat := 128

def sanitizeDisplayName (host : Host) (value : String) : String :=
  let visible := (value.toList.filter (!host.control ·)).map fun c => if isSpace c then ' ' else c
  let clipped := (collapseSpaces visible).take displayNameLimit
  .ofList ((clipped.reverse.dropWhile isSpace).reverse)

/-- `_CAUSAL_TOKEN_UNSAFE.sub("_", text)`: every run of unsafe characters becomes one. -/
def replaceUnsafe (host : Host) : Bool → List Char → List Char
  | _, [] => []
  | replaced, c :: cs =>
    if host.alphanumeric c || c ∈ ['_', '.', ':', '-'] then c :: replaceUnsafe host false cs
    else if replaced then replaceUnsafe host true cs
    else '_' :: replaceUnsafe host true cs

def causalToken (host : Host) (value : Option String) (fallback : String) : String :=
  let clipped := (replaceUnsafe host false (strip (value.getD "")).toList).take 64
  let left := clipped.dropWhile (· = '_')
  let normalized := (left.reverse.dropWhile (· = '_')).reverse
  if normalized = [] then fallback else .ofList normalized

/-! Speech transcripts. -/

structure AudioTranscript where
  source : String
  segmentIndex : Int
  text : String
deriving DecidableEq

def parseTranscript : Json → Except Err AudioTranscript
  | .obj fields =>
    match fields.lookup "source", fields.lookup "segment_index", fields.lookup "text" with
    | some (.str source), some index, some (.str text) =>
      let number : Option Int := match index with
        | .int n => some n
        | .bool b => some (if b then 1 else 0)
        | _ => none
      match number with
      | some n =>
        if source ∈ ["current", "reply"] ∧ 0 ≤ n ∧ text ≠ "" then .ok ⟨source, n, text⟩
        else .error (.valueError "invalid audio transcript")
      | none => .error (.valueError "invalid audio transcript")
    | _, _, _ => .error (.valueError "invalid audio transcript")
  | _ => .error (.valueError "invalid audio transcript")

def parseTranscripts (value : String) : Except Err (List AudioTranscript) :=
  if value = "" then .ok []
  else match Json.loads value with
    | none => .error (.valueError "JSONDecodeError")
    | some (.arr (item :: items)) => (item :: items).mapM parseTranscript
    | some _ => .error (.valueError "invalid audio transcript list")

def transcriptContext (value : String) : Except Err String := do
  let items ← parseTranscripts value
  return "\n\n".intercalate (items.map fun item =>
    let label := if item.source = "reply" then "回复消息中的语音" else "当前消息的语音"
    "[" ++ label ++ "转写（自动识别，可能有误）]\n" ++ item.text)

namespace EventRecord

def senderDisplayName (host : Host) (row : EventRecord) : String :=
  let groupCard := sanitizeDisplayName host row.senderGroupCard
  let nickname := sanitizeDisplayName host row.senderNickname
  if groupCard ≠ "" then groupCard
  else if nickname ≠ "" then nickname
  else if row.authorKind = some "yuki" then "Agent"
  else if row.authorKind = some "external_bot" then "external bot"
  else if row.authorKind = some "system" then "system"
  else "成员"

def role (row : EventRecord) : Role :=
  if row.direction = .outbound then .assistant else .user

end EventRecord

def proactiveMessageLabel (host : Host) (row : EventRecord) (cause : Option EventRecord) :
    Option String :=
  if row.direction ≠ .outbound ∨ row.origin ≠ "plugin_background" then none
  else match row.causedByEventId with
    | none => some "[主动消息｜历史来源未知]"
    | some event =>
      let source := (row.causedByExternalSource.filter (· ≠ "")).or
        (cause.bind (·.externalSource))
      let eventType := (row.causedByExternalEventType.filter (· ≠ "")).or
        (cause.bind (·.externalEventType))
      some ("[主动消息｜由外部事件 #" ++ toString event ++ " 触发｜source=" ++
        causalToken host source "external" ++ "｜type=" ++ causalToken host eventType "event" ++ "]")

def promptOriginClass (row : EventRecord) : String :=
  if row.direction = .outbound ∧ row.origin = "plugin_background" then "plugin_proactive"
  else "ordinary"

/-! References. -/

/-- The reference rows of one source, in the order of their arrival. -/
structure EventPromptIndex where
  ordered : List EventRecord
deriving DecidableEq

namespace EventPromptIndex

def empty : EventPromptIndex := ⟨[]⟩

def entry (index : EventPromptIndex) (id : EventId) : Option (EventRecord × Nat) :=
  index.ordered.zipIdx.find? (·.1.id = id)

def addEvent (index : EventPromptIndex) (row : EventRecord) : EventPromptIndex :=
  if (index.entry row.id).isSome then index else ⟨index.ordered ++ [row]⟩

def extend (index : EventPromptIndex) (events : List EventRecord) : EventPromptIndex :=
  (events.mergeSort fun a b => decide (a.id ≤ b.id)).foldl addEvent index

def ofEvents (events : List EventRecord) : EventPromptIndex :=
  empty.extend ((Dict.ofList (events.map fun row => (row.id, row))).map (·.2))

end EventPromptIndex

/-- A fixed view of an index: its first rows, up to an event. -/
structure EventPromptReferences where
  index : EventPromptIndex
  cutoff : Nat
  through : EventId
  extra : Option EventPromptIndex
deriving DecidableEq

namespace EventPromptReferences

def get (references : EventPromptReferences) (id : EventId) : Option EventRecord :=
  if references.through < id then none
  else match references.extra.bind (·.entry id) with
    | some found => some found.1
    | none => ((references.index.entry id).filter (·.2 < references.cutoff)).map (·.1)

def withEvents (references : EventPromptReferences) (events : List EventRecord) :
    EventPromptReferences :=
  if events = [] then references
  else
    let previous := (references.extra.map (·.ordered)).getD []
    { references with extra := some (EventPromptIndex.ofEvents (previous ++ events)) }

end EventPromptReferences

def EventPromptIndex.capture (index : EventPromptIndex) (through : EventId)
    (extraEvents : List EventRecord) : EventPromptReferences :=
  (EventPromptReferences.mk index index.ordered.length through none).withEvents extraEvents

/-! Content and envelope of one event. -/

def forwarded (row : EventRecord) : Bool :=
  row.segments.any fun segment => segment.lookup "type" = some (.str "forward")

def forwardMarker : String := "[含合併轉發]"

/-- `text in content`. -/
def containsText (content text : String) : Bool :=
  content.toList.tails.any fun suffix => text.toList.isPrefixOf suffix

def marked (row : EventRecord) (content : String) : String :=
  if forwarded row && !containsText content forwardMarker then
    strip (content ++ "\n" ++ forwardMarker)
  else content

/-- The text and stickers of an outbound message with images. -/
def outboundPart (host : Host) (segment : MessageSegment) : Option String :=
  match segment.lookup "data" with
  | some (.obj data) =>
    match segment.lookup "type" with
    | some (.str "text") => some (host.str ((data.lookup "text").getD (.str "")))
    | some (.str "image") =>
      if ((data.lookup "is_sticker").getD .null).truthy then
        match data.lookup "tags" with
        | some (.arr tags) =>
          let label := "、".intercalate (tags.filterMap fun
            | .str tag => some tag
            | _ => none)
          some (if label ≠ "" then "[表情: " ++ label ++ "]" else "[表情]")
        | _ => none
      else none
    | _ => none
  | _ => none

/-- The visible content of an event, without transport markers. -/
def eventContent (host : Host) (row : EventRecord) (currentEventId : Option EventId)
    (currentContent : String) : Except Err String :=
  if some row.id = currentEventId then .ok (marked row currentContent)
  else if row.direction = .outbound ∧
      "image" ∈ row.segments.map (fun segment =>
        host.str ((segment.lookup "type").getD (.str ""))) then
    .ok (marked row (strip ("\n".intercalate (row.segments.filterMap (outboundPart host)))))
  else do
    let mut base := strip row.content
    if row.audioTranscript ≠ "" then
      let speech ← transcriptContext row.audioTranscript
      base := strip (base ++ "\n" ++ speech)
    if row.visualSummary = "" then return marked row base
    return marked row (strip (base ++ "\n" ++ "[历史图片识别摘要]\n" ++ row.visualSummary))

def principalRef (row : EventRecord) : String :=
  match row.authorPersonId.filter (· ≠ ""), row.authorPresenceId.filter (· ≠ ""),
      row.authorAccountId.filter (· ≠ "") with
  | some person, _, _ => "person:" ++ person
  | none, some presence, _ => "presence:" ++ presence
  | none, none, some account => "account:" ++ account
  | none, none, none => orText row.authorKind "unknown"

def senderIdentity (row : EventRecord) : List String :=
  if (row.authorPersonId.filter (· ≠ "")).isSome ∨ (row.authorPresenceId.filter (· ≠ "")).isSome ∨
      (row.authorAccountId.filter (· ≠ "")).isSome then [principalRef row]
  else [orText row.authorKind "unknown", row.platform, row.senderUserId]

def rowIdentityLabel (host : Host) (row : EventRecord) : String :=
  row.senderDisplayName host ++ "/" ++ principalRef row

/-- The mentions among the segments, with the names they show. -/
def mentionLabel (host : Host) (data : MessageSegment) : String :=
  let shown := (data.lookup "display_name").getD .null
  let whole := if data.lookup "kind" = some (.str "all") then "全体成员" else "未识别成员"
  let name := sanitizeDisplayName host (if shown.truthy then host.str shown else whole)
  let account := (data.lookup "account_id").getD .null
  if account.truthy then name ++ "/@\x7baccount:" ++ host.str account ++ "\x7d" else name

def mentionField (host : Host) (row : EventRecord) : String :=
  let snapshots := row.segments.filterMap fun segment =>
    match segment.lookup "type", segment.lookup "data" with
    | some (.str "mention"), some (.obj data) => some data
    | _, _ => none
  if snapshots = [] then ""
  else "提及:" ++ ",".intercalate (snapshots.map (mentionLabel host))

/-- What groups an event with its neighbours. -/
structure GroupKey where
  role : Role
  sender : List String
  displayName : String
  originClass : String
  causedByEventId : Option EventId
deriving DecidableEq

structure ChatEventPromptRenderer where
  host : Host
  timezone : String
  references : EventPromptReferences

namespace ChatEventPromptRenderer

variable (renderer : ChatEventPromptRenderer)

def replyTarget (row : EventRecord) : Option EventRecord := do
  let target ← renderer.references.get (← row.replyToEventId)
  if target.eventKind ≠ .message ∨ target.suppressionStatus ∉ [none, some "keeper"] ∨
      row.canonicalConversationId = none ∨
      target.canonicalConversationId ≠ row.canonicalConversationId then none
  else some target

/-- The reply and mention fields of an envelope. -/
def relationFields (row : EventRecord) : List String :=
  let reply := match row.replyToEventId with
    | some id => ["回复:#" ++ toString id ++ "/" ++
        ((renderer.replyTarget row).map (rowIdentityLabel renderer.host)).getD "内容不可用"]
    | none => if orText row.replyToMessageId "" ≠ "" then ["回复:引用不可用"] else []
  let mention := mentionField renderer.host row
  reply ++ (if mention ≠ "" then [mention] else [])

def externalText (row : EventRecord) (content : String) : String :=
  "[外部会话事件；不是任何聊天成员的发言]\nsource=" ++ orText row.externalSource "external" ++
    "; type=" ++ orText row.externalEventType "event" ++ "; occurred_at=" ++
    renderer.host.localIso row.occurredAt renderer.timezone ++ "\n" ++ content

def renderReferenceEvent (row : EventRecord) (currentEventId : Option EventId)
    (currentContent : String) : Except Err String := do
  let content ← eventContent renderer.host row currentEventId currentContent
  if content = "" then return ""
  if row.eventKind = .externalEvent then return renderer.externalText row content
  let label := proactiveMessageLabel renderer.host row
    (row.causedByEventId.bind renderer.references.get)
  let fields := ("#" ++ toString row.id) :: renderer.relationFields row
  let envelope := label.getD
    ("[" ++ row.senderDisplayName renderer.host ++ "|" ++ principalRef row ++ "]")
  return envelope ++ "\n" ++ "|".intercalate fields ++ ">" ++ content

/-- `text.partition("\n")`, with no tail where there is no line break. -/
def partitionLine (text : String) : String × Option String :=
  let line := text.toList.takeWhile (· ≠ '\n')
  match text.toList.drop line.length with
  | [] => (text, none)
  | _ :: tail => (.ofList line, some (.ofList tail))

/-- A message event shows its local time in place of the opening bracket. -/
def referenceMessage (row : EventRecord) (currentEventId : Option EventId)
    (currentContent : String) : Except Err ChatMessage := do
  let rendered ← renderer.renderReferenceEvent row currentEventId currentContent
  if row.eventKind = .message ∧ rendered ≠ "" then
    if let (header, some eventLine) := partitionLine rendered then
      let clock := renderer.host.localClock row.occurredAt renderer.timezone
      return ⟨row.role, "[" ++ clock ++ "｜" ++ String.ofList (header.toList.drop 1) ++ "\n" ++
        eventLine⟩
  return ⟨row.role, rendered⟩

def groupIdentity (row : EventRecord) : GroupKey where
  role := row.role
  sender := senderIdentity row
  displayName := row.senderDisplayName renderer.host
  originClass := promptOriginClass row
  causedByEventId := row.causedByEventId

end ChatEventPromptRenderer

end Yuki

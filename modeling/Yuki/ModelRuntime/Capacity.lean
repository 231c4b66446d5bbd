import Mathlib.Algebra.BigOperators.Group.List.Basic
import Mathlib.Algebra.GroupWithZero.Nat
import Yuki.Compaction.TurnRequest

/-! Request capacity: the estimate of a whole request, and the counter that adds up
the costs of its entries. -/

namespace Yuki.ModelRuntime

open Compaction

structure ChatTool where
  name : String
  description : String
  parameters : List (String × Json)

inductive NativeToolType
  | webSearch

def NativeToolType.value : NativeToolType → String
  | .webSearch => "web_search"

inductive ReasoningEffort
  | none | minimal | low | medium | high | xhigh | max

def ReasoningEffort.value : ReasoningEffort → String
  | .none => "none"
  | .minimal => "minimal"
  | .low => "low"
  | .medium => "medium"
  | .high => "high"
  | .xhigh => "xhigh"
  | .max => "max"

structure ChatRequest where
  messages : List Compaction.ChatMessage
  model : String := ""
  temperature : Option (Int × Int) := none
  maxOutputTokens : Option Int := none
  thinkingEnabled : Option Bool := none
  reasoningEffort : Option ReasoningEffort := none
  tools : List ChatTool := []
  toolChoice : Option String := none
  responseFormat : Option (List (String × Json)) := none
  structuredOutput : Bool := false
  nativeTools : List NativeToolType := []
  continuation : Option ProviderContinuation := none
  continuationItems : List Record := []

/-- A value on its way to `json.dumps`: JSON, images, and opaque checkpoints. -/
inductive Input
  | null
  | bool (b : Bool)
  | int (n : Int)
  | real (m e : Int)
  | str (s : String)
  | image (i : ChatImage)
  | continuation (c : ProviderContinuation)
  | list (items : List Input)
  | dict (fields : List (String × Input))

namespace Input

mutual

def ofJson : Json → Input
  | .null => .null
  | .bool b => .bool b
  | .int n => .int n
  | .real m e => .real m e
  | .str s => .str s
  | .arr items => .list (ofItems items)
  | .obj fields => .dict (ofFields fields)

def ofItems : List Json → List Input
  | [] => []
  | x :: xs => ofJson x :: ofItems xs

def ofFields : List (String × Json) → List (String × Input)
  | [] => []
  | (k, v) :: fs => (k, ofJson v) :: ofFields fs

end

mutual

/-- What `json.dumps(value, default=str)` encodes; `text` is the `str` of an object that
JSON does not know. -/
def dumped (text : ChatImage ⊕ ProviderContinuation → String) : Input → Json
  | .null => .null
  | .bool b => .bool b
  | .int n => .int n
  | .real m e => .real m e
  | .str s => .str s
  | .image i => .str (text (.inl i))
  | .continuation c => .str (text (.inr c))
  | .list items => .arr (dumpedItems text items)
  | .dict fields => .obj (dumpedFields text fields)

def dumpedItems (text : ChatImage ⊕ ProviderContinuation → String) : List Input → List Json
  | [] => []
  | x :: xs => dumped text x :: dumpedItems text xs

def dumpedFields (text : ChatImage ⊕ ProviderContinuation → String) :
    List (String × Input) → List (String × Json)
  | [] => []
  | (k, v) :: fs => (k, dumped text v) :: dumpedFields text fs

end

end Input

/-! Binary input. -/

def preparedMedia : String := "[prepared media]"

/-- Prepared binary data under one of the two spellings of a media slot. -/
def preparePart (part : Json) : Json × Nat :=
  match part with
  | .obj _ => ["inlineData", "inline_data"].foldl (fun prepared key =>
      match part.get key with
      | .obj media =>
        if ((Json.obj media).get "data").isStr then
          (prepared.1.set key (.str preparedMedia), prepared.2 + 4096)
        else prepared
      | _ => prepared) (part, 0)
  | _ => (part, 0)

def prepareContent (content : Json) : Json × Nat :=
  match content, content.get "parts" with
  | .obj _, .arr parts =>
    if content.get "role" = .str "user" ∨ content.get "role" = .str "model" then
      (content.set "parts" (.arr (parts.map fun part => (preparePart part).1)),
        (parts.map fun part => (preparePart part).2).sum)
    else (content, 0)
  | _, _ => (content, 0)

/-- Only the content parts of one protocol hold binary input; other payloads stay complete. -/
def withoutPayload (c : ProviderContinuation) : Input × Nat :=
  match c.payload with
  | .tuple values =>
    if c.protocol = "gemini" then
      (.list (Input.ofItems (values.map fun content => (prepareContent content).1)),
        (values.map fun content => (prepareContent content).2).sum)
    else (.list (Input.ofItems values), 0)
  | .value v => (Input.ofJson v, 0)

/-- The declarations of a request, which are no media. -/
def declarations : List String := ["tools", "response_format"]

mutual

/-- The inner `without_binary`, and the media tokens; `top` is `value is model_input`. -/
def withoutBinary (top : Bool) : Input → Input × Nat
  | .image _ => (.dict [("data_url", .str preparedMedia)], 4096)
  | .continuation c => withoutPayload c
  | .dict fields => (.dict (withoutFields top fields).1, (withoutFields top fields).2)
  | .list items => (.list (withoutItems items).1, (withoutItems items).2)
  | .null => (.null, 0)
  | .bool b => (.bool b, 0)
  | .int n => (.int n, 0)
  | .real m e => (.real m e, 0)
  | .str s => (.str s, 0)

def withoutItems : List Input → List Input × Nat
  | [] => ([], 0)
  | x :: xs => ((withoutBinary false x).1 :: (withoutItems xs).1,
      (withoutBinary false x).2 + (withoutItems xs).2)

def withoutFields (top : Bool) : List (String × Input) → List (String × Input) × Nat
  | [] => ([], 0)
  | (k, v) :: fs =>
    if top = true ∧ k ∈ declarations then
      ((k, v) :: (withoutFields top fs).1, (withoutFields top fs).2)
    else ((k, (withoutBinary false v).1) :: (withoutFields top fs).1,
      (withoutBinary false v).2 + (withoutFields top fs).2)

end

/-! Costs. -/

/-- Additive serialized character and media counts. -/
@[ext] structure InputTokenCost where
  ascii : Nat := 0
  nonAscii : Nat := 0
  media : Nat := 0
deriving DecidableEq

namespace InputTokenCost

instance : Zero InputTokenCost := ⟨{}⟩

instance : Add InputTokenCost :=
  ⟨fun a b => ⟨a.ascii + b.ascii, a.nonAscii + b.nonAscii, a.media + b.media⟩⟩

/-- Rounding is for the whole input. -/
def tokens (cost : InputTokenCost) : Nat :=
  (cost.ascii + 2) / 3 + cost.nonAscii * 2 + cost.media

@[simp] theorem zero_ascii : (0 : InputTokenCost).ascii = 0 := rfl

@[simp] theorem zero_nonAscii : (0 : InputTokenCost).nonAscii = 0 := rfl

@[simp] theorem zero_media : (0 : InputTokenCost).media = 0 := rfl

@[simp] theorem add_ascii (a b : InputTokenCost) : (a + b).ascii = a.ascii + b.ascii := rfl

@[simp] theorem add_nonAscii (a b : InputTokenCost) : (a + b).nonAscii = a.nonAscii + b.nonAscii :=
  rfl

@[simp] theorem add_media (a b : InputTokenCost) : (a + b).media = a.media + b.media := rfl

instance : AddCommMonoid InputTokenCost where
  add_assoc a b c := by ext <;> simp [Nat.add_assoc]
  zero_add a := by ext <;> simp
  add_zero a := by ext <;> simp
  add_comm a b := by ext <;> simp [Nat.add_comm]
  nsmul := nsmulRec

end InputTokenCost

/-- JSON list contents, with the number of items. -/
structure InputSequenceCost where
  items : InputTokenCost := {}
  count : Nat := 0
deriving DecidableEq

namespace InputSequenceCost

instance : Zero InputSequenceCost := ⟨{}⟩

instance : Add InputSequenceCost :=
  ⟨fun a b => ⟨a.items + b.items, a.count + b.count⟩⟩

def interior (cost : InputSequenceCost) : InputTokenCost :=
  cost.items + { ascii := (cost.count - 1) * 2 }

end InputSequenceCost

def asciiCount (text : List Char) : Nat :=
  text.countP fun c => c.toNat < 128

/-! The view of a request. -/

def optional (name : String) (value : Option Input) : List (String × Input) :=
  (value.map (name, ·)).toList

def nonempty (name : String) (items : List Input) : List (String × Input) :=
  if items.isEmpty then [] else [(name, .list items)]

def toolInput (tool : ChatTool) : Input :=
  .dict [("name", .str tool.name), ("description", .str tool.description),
    ("parameters", .dict (Input.ofFields tool.parameters))]

/-- `asdict(call)`. -/
def callInput (call : ToolCall) : Input :=
  .dict [("id", .str call.id),
    ("function", .dict [("name", .str call.function.name),
      ("arguments", .str call.function.arguments)]),
    ("type", .str call.type)]

/-- The original opaque item, rather than its budgeting mirror. -/
def messageInput (message : Compaction.ChatMessage) : Input :=
  match message.responseItem with
  | some item => .dict [("response_item", .continuation item)]
  | none => .dict (("role", .str message.role) ::
      (optional "content" (message.content.map .str) ++
        nonempty "tool_calls" (message.toolCalls.map callInput) ++
        optional "tool_call_id" (message.toolCallId.map .str) ++
        optional "reasoning_content" (message.reasoningContent.map .str) ++
        nonempty "images" (message.images.map .image)))

/-- `asdict` of a function call output. -/
def outputInput (o : FunctionCallOutput) : Input :=
  .dict [("call_id", .str o.callId), ("output", .str o.output)]

def recordInput : Record → Input
  | .message m => messageInput m
  | .output o => outputInput o

/-- The fields of the settings and declarations, in the order of the view. -/
def settingsInput (request : ChatRequest) : List (String × Input) :=
  ("model", .str request.model) ::
    (optional "temperature" (request.temperature.map fun t => .real t.1 t.2) ++
      optional "max_output_tokens" (request.maxOutputTokens.map .int) ++
      optional "thinking_enabled" (request.thinkingEnabled.map .bool) ++
      optional "reasoning_effort" (request.reasoningEffort.map fun e => .str e.value) ++
      optional "tool_choice" (request.toolChoice.map .str) ++
      optional "response_format" (request.responseFormat.map fun f => .dict (Input.ofFields f)) ++
      (if request.structuredOutput then [("structured_output", .bool true)] else []) ++
      nonempty "tools" (request.tools.map toolInput) ++
      nonempty "native_tools" (request.nativeTools.map fun t => .dict [("type", .str t.value)]))

def requestInput (request : ChatRequest) : Input :=
  .dict (("messages", .list (request.messages.map messageInput)) ::
    (settingsInput request ++
      optional "continuation" (request.continuation.map .continuation) ++
      nonempty "continuation_items" (request.continuationItems.map recordInput)))

section Estimate

variable (text : ChatImage ⊕ ProviderContinuation → String)

/-- `_input_token_cost`. -/
def inputTokenCost (value : Input) : InputTokenCost :=
  let serialized := ((withoutBinary true value).1.dumped text).chars [',', ' '] [':', ' ']
  { ascii := asciiCount serialized
    nonAscii := serialized.length - asciiCount serialized
    media := (withoutBinary true value).2 }

def estimateRequestTokens (request : ChatRequest) : Nat :=
  (inputTokenCost text (requestInput request)).tokens

def messageTokenCost (message : Compaction.ChatMessage) : InputSequenceCost :=
  ⟨inputTokenCost text (messageInput message), 1⟩

/-! The counter. -/

structure RequestTokenCounter where
  base : InputTokenCost
  messages : InputSequenceCost := {}
  continuation : Option InputTokenCost := none
  items : InputSequenceCost := {}

namespace RequestTokenCounter

def new (request : ChatRequest) : RequestTokenCounter where
  base := inputTokenCost text (requestInput
    { request with messages := [], continuation := none, continuationItems := [] })

def append (counter : RequestTokenCounter) : Entry → RequestTokenCounter
  | .continuation c =>
    { counter with continuation := some (inputTokenCost text (.continuation c)), items := {} }
  | .message m =>
    match counter.continuation with
    | none => { counter with messages := counter.messages + messageTokenCost text m }
    | some _ => { counter with items := counter.items + messageTokenCost text m }
  | .output o =>
    match counter.continuation with
    | none => counter
    | some _ =>
      { counter with items := counter.items + ⟨inputTokenCost text (outputInput o), 1⟩ }

/-- The counter after the entries of a transcript. -/
def scan (request : ChatRequest) (entries : List Entry) : RequestTokenCounter :=
  entries.foldl (append text) (new text request)

def estimate (counter : RequestTokenCounter) (extra : InputSequenceCost) : Nat :=
  let messages := if counter.continuation.isNone then counter.messages + extra else counter.messages
  let total := counter.base + messages.interior
  let total := match counter.continuation with
    | some continuation => total +
        ({ ascii := ", \"continuation\": ".length } + continuation)
    | none => total
  let items := if counter.continuation.isSome then counter.items + extra else counter.items
  let total := if items.count ≠ 0 then
      total + ({ ascii := ", \"continuation_items\": []".length } + items.interior)
    else total
  total.tokens

/-- A fresh portable request under the same settings. -/
def estimateMessages (counter : RequestTokenCounter) (messages : InputSequenceCost) : Nat :=
  (counter.base + messages.interior).tokens

end RequestTokenCounter

end Estimate

end Yuki.ModelRuntime

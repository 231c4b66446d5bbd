import Yuki.Compaction.Tail
import Yuki.Lib.Buckets
import Yuki.Lib.JsonOrder
import Yuki.ModelRuntime.Counter

/-! The choice of a paired prefix of the actual input, for context maintenance. -/

namespace Yuki.ModelRuntime.InputSequenceCost

@[ext] theorem ext {a b : InputSequenceCost} (hitems : a.items = b.items)
    (hcount : a.count = b.count) : a = b := by
  cases a
  cases b
  cases hitems
  cases hcount
  rfl

@[simp] theorem zero_items : (0 : InputSequenceCost).items = 0 := rfl

@[simp] theorem zero_count : (0 : InputSequenceCost).count = 0 := rfl

@[simp] theorem add_items (a b : InputSequenceCost) : (a + b).items = a.items + b.items := rfl

@[simp] theorem add_count (a b : InputSequenceCost) : (a + b).count = a.count + b.count := rfl

instance : AddCommMonoid InputSequenceCost where
  add_assoc a b c := ext (add_assoc a.items b.items c.items) (Nat.add_assoc a.count b.count c.count)
  zero_add a := ext (zero_add a.items) (Nat.zero_add a.count)
  add_zero a := ext (add_zero a.items) (Nat.add_zero a.count)
  add_comm a b := ext (add_comm a.items b.items) (Nat.add_comm a.count b.count)
  nsmul := nsmulRec

end Yuki.ModelRuntime.InputSequenceCost

namespace Yuki.Compaction

open ModelRuntime

/-! Python's `==` on messages: numbers of one value are equal, and dictionaries whatever
the order of their keys. -/

def ChatImage.compared (i : ChatImage) : ChatImage :=
  { i with videoTimestampSeconds := i.videoTimestampSeconds.map (Json.normalize Json.number) }

def Payload.compared : Payload → Payload
  | .tuple values => .tuple (values.map (Json.normalize Json.number))
  | .value v => .value (v.normalize Json.number)

def ProviderContinuation.compared (c : ProviderContinuation) : ProviderContinuation :=
  { c with payload := c.payload.compared }

def ChatMessage.compared (m : ChatMessage) : ChatMessage :=
  { m with
    images := m.images.map ChatImage.compared
    responseItem := m.responseItem.map ProviderContinuation.compared }

def ChatMessage.same (a b : ChatMessage) : Bool :=
  a.compared = b.compared

/-- `message in messages`. -/
def within (message : ChatMessage) (messages : List ChatMessage) : Bool :=
  messages.any fun m => m.same message

/-- The portable fields; opaque values can contain mutable JSON. -/
structure MessageKey where
  role : String
  content : Option String
  toolCalls : List ToolCall
  toolCallId : Option String
  reasoningContent : Option String
  images : List ChatImage
deriving DecidableEq

/-- Images enter the key as `==` compares them. -/
def messageKey (m : ChatMessage) : MessageKey where
  role := m.role
  content := m.content
  toolCalls := m.toolCalls
  toolCallId := m.toolCallId
  reasoningContent := m.reasoningContent
  images := m.images.map ChatImage.compared

section Index

variable (text : ChatImage ⊕ ProviderContinuation → String)

/-- Suffix membership and additive costs for every already-paired boundary. -/
structure TailIndex where
  items : List RetainedItem
  starts : List Nat
  publics : List ChatMessage
  lastPublic : List Int
  requiredCost : List InputSequenceCost
  publicCost : List InputSequenceCost

/-- `last_public[ordinal] = item.start` where the messages are equal. -/
def markPublic (publics : List ChatMessage) (item : RetainedItem) (lastPublic : List Int)
    (ordinals : List Nat) : List Int :=
  ordinals.foldl (fun last ordinal =>
    if publics[ordinal]?.any (fun message => item.message.same message) then
      last.set ordinal item.start
    else last) lastPublic

def lastPublics (publics : List ChatMessage) (items : List RetainedItem) : List Int :=
  let publicIndex :=
    Dict.groupBy (fun entry : ChatMessage × Nat => messageKey entry.1) publics.zipIdx
  items.foldl (fun last item =>
    markPublic publics item last
      (((publicIndex.lookup (messageKey item.message)).getD []).map (·.2)))
    (List.replicate publics.length (-1))

/-- The public messages that the initial ones do not hold. -/
def publicMessages (initial retainedPublic : List ChatMessage) : List ChatMessage :=
  let initialIndex := Dict.groupBy messageKey initial
  retainedPublic.filter fun message =>
    !within message ((initialIndex.lookup (messageKey message)).getD [])

/-- What every required item costs, at the boundary from which it is required. -/
def requiredCosts (items : List RetainedItem) : List (Nat × InputSequenceCost) :=
  items.filterMap fun item =>
    item.requiredFrom.map fun boundary => (boundary, messageTokenCost text item.message)

/-- What every public message costs, at the boundary behind its last occurrence. -/
def growth (publics : List ChatMessage) (lastPublic : List Int) : List (Nat × InputSequenceCost) :=
  (publics.zip lastPublic).map fun entry =>
    ((entry.2 + 1).toNat, messageTokenCost text entry.1)

def TailIndex.new (items : List RetainedItem) (count : Nat)
    (initial retainedPublic : List ChatMessage) : TailIndex :=
  let publics := publicMessages initial retainedPublic
  let lastPublic := lastPublics publics items
  { items := items
    starts := items.map (·.start)
    publics := publics
    lastPublic := lastPublic
    requiredCost := suffixSums (gather (count + 1) (requiredCosts text items))
    publicCost := prefixSums 0 (gather (count + 1) (growth text publics lastPublic)) }

/-- `bisect_left` on ascending positions. -/
def bisectLeft (starts : List Nat) (boundary : Nat) : Nat :=
  (starts.takeWhile (· < boundary)).length

def TailIndex.retained (self : TailIndex) (boundary : Nat) : List ChatMessage :=
  ((self.publics.zip self.lastPublic).filter fun entry => entry.2 < (boundary : Int)).map (·.1) ++
    (self.items.drop (bisectLeft self.starts boundary)).map (·.message)

end Index

/-! The plan. -/

def executionCompactInstruction : String :=
  "[Host 上下文压缩要求]\n" ++
    "本次只整理当前激活的私有执行进展，不执行工具、不发消息。" ++
    "不要复述前面的公共聊天历史或本轮运行资料。" ++
    "目标只认本次输入及明确接纳的当前 Work，不从公共群史、工作目录或引用中猜测原任务。" ++
    "保留当前目标、追加要求、有效约束、已经确认的结果、失败与未知状态、" ++
    "必要发现、文件/资料句柄、原来源引用和下一步。" ++
    "不得把未完成事项写成已完成，不要求额外汇报或所有子任务成功。" ++
    "仅返回可供本轮继续的文字检查点。"

inductive CompactError
  | workCapacity (code : String)
  | tail (e : TailError)
deriving DecidableEq

/-- The prefix is that of the transcript's entries. -/
structure ExecutionCompactPlan where
  request : ChatRequest
  transcript : List Entry
  retained : List ChatMessage
  hasUncoveredExecution : Bool

structure CompactInput where
  entries : List Entry
  initial : List ChatMessage
  mainRequest : ChatRequest
  inputBudget : Option Int
  prepare : ChatRequest → ChatRequest
  retainedPublic : List ChatMessage := []
  callKey : Option (String → Option String) := none
  responses : List ChatMessage := []
  focus : String := ""
  checkpointSummary : Option String := none
  unobservedToolRound : Option ChatMessage := none

structure Scan where
  counter : Option RequestTokenCounter
  pending : List String := []
  candidates : List Nat := []

namespace Entry

def isMessage (e : Entry) : Bool :=
  e.message?.isSome

def isOutput : Entry → Bool
  | .output _ => true
  | _ => false

end Entry

/-- Whether an entry that is no message follows, for every position. -/
def nativeFrom : List Entry → List Bool
  | [] => [false]
  | entry :: entries =>
    let later := nativeFrom entries
    (later.headD false || !entry.isMessage) :: later

namespace CompactInput

variable (p : CompactInput)

/-- The summary of the Host checkpoint already substituted into this chain. -/
def holdsCheckpoint (summary : String) : Option Entry → Bool
  | some (.message first) =>
    first.role = "user" &&
      match Json.loads (first.content.getD "") with
      | some value => value.isObj && value.get? "kind" = some (.str "context_compaction") &&
          value.get? "summary" = some (.str summary)
      | none => false
  | _ => false

def minimumBoundary : Nat :=
  p.initial.length +
    if p.checkpointSummary.any fun summary => holdsCheckpoint summary p.entries[p.initial.length]?
    then 1 else 0

/-- The last responses stand at the last checkpoints. -/
def recorded : Dict Nat ChatMessage :=
  let checkpoints := checkpoints p.entries
  if p.responses = [] then []
  else (checkpoints.drop (checkpoints.length - p.responses.length)).zip
    (p.responses.drop (p.responses.length - checkpoints.length))

def instruction : ChatMessage where
  role := "user"
  content := some (executionCompactInstruction ++
    if p.focus ≠ "" then "\n" ++ p.focus else "")

/-- The call ids that wait for their results, as the scan keeps them. -/
def pendingAfter (index : Nat) (entry : Entry) (pending : List String) : List String :=
  match p.recorded.lookup index with
  | some response => pending ++ response.toolCalls.map (·.id)
  | none =>
    match entry with
    | .message m =>
      let pending := pending ++ m.toolCalls.map (·.id)
      if truthy m.toolCallId then pending.filter (· ≠ m.toolCallId.getD "") else pending
    | .output o => pending.filter (· ≠ o.callId)
    | .continuation _ => pending

/-- A boundary behind this entry splits no round. -/
def splits (index : Nat) (entry : Entry) (next : Option Entry) (pending : List String) : Bool :=
  p.minimumBoundary < index + 1 && pending = [] && entry.continuation?.isNone &&
    !next.any Entry.isOutput

variable (text : ChatImage ⊕ ProviderContinuation → String)

def budgeted (counter : Option RequestTokenCounter) : Bool :=
  match counter, p.inputBudget with
  | some counter, some budget =>
    decide ((counter.estimate (messageTokenCost text p.instruction) : Int) ≤ budget)
  | _, _ => true

def scanStep (index : Nat) (entry : Entry) (next : Option Entry) (s : Scan) : Scan :=
  let counter := s.counter.map fun c => c.append text entry
  let pending := p.pendingAfter index entry s.pending
  { counter := counter
    pending := pending
    candidates := if p.splits index entry next pending && p.budgeted text counter then
        s.candidates ++ [index + 1]
      else s.candidates }

def scanFrom : Nat → List Entry → Scan → Scan
  | _, [], s => s
  | index, entry :: entries, s =>
    scanFrom (index + 1) entries (p.scanStep text index entry entries.head? s)

/-- The request of these settings without any input. -/
def settings : ChatRequest :=
  p.prepare { p.mainRequest with messages := [], continuation := none, continuationItems := [] }

def scan : Scan :=
  p.scanFrom text 0 p.entries
    { counter := p.inputBudget.map fun _ => RequestTokenCounter.new text p.settings }

def isResponse (index : Nat) : Bool :=
  (p.recorded.lookup index).isSome ||
    (p.entries[index]?.bind Entry.message?).any fun m => m.role = "assistant"

def lastResponseIndex : Option Nat :=
  (List.range p.entries.length).reverse.find? fun index =>
    decide (p.initial.length ≤ index) && p.isResponse index

def lastResponse : Option ChatMessage :=
  p.lastResponseIndex.bind fun index =>
    (p.recorded.lookup index).or (p.entries[index]?.bind Entry.message?)

/-- The Host observation reconstructed in this chain. -/
def portableIndex : Option Nat :=
  p.unobservedToolRound.bind fun round =>
    (List.range p.entries.length).find? fun index =>
      decide (p.initial.length ≤ index) &&
        (p.entries[index]?.bind Entry.message?).any fun m => m.same round

def keepFrom : Nat :=
  let called := if p.lastResponse.any fun m => m.toolCalls ≠ [] then p.lastResponseIndex else none
  match p.portableIndex with
  | some index =>
    if p.lastResponseIndex.all (· < index) then index else called.getD p.entries.length
  | none => called.getD p.entries.length

def tailInput : TailInput where
  recorded := p.recorded
  lastResponse := p.lastResponseIndex
  callKey := p.callKey
  keepFrom := p.keepFrom

/-- The messages of the entries from an index on, as they are. -/
def rawItems (first : Nat) : List RetainedItem :=
  (p.entries.zipIdx.filter fun entry => first ≤ entry.2).filterMap fun entry =>
    entry.1.message?.map fun m => p.tailInput.item entry.2 m

def nativeItems (first : Nat) : Except CompactError (List RetainedItem) :=
  match p.tailInput.nativeTailItems first (p.entries.drop first) with
  | .ok items => .ok items
  | .error e => .error (.tail e)

def isNative (boundary : Nat) : Bool :=
  (nativeFrom p.entries).getD boundary false

/-- The plan that ends its prefix at a boundary. -/
def plan (boundary : Nat) (retained : List ChatMessage) : ExecutionCompactPlan :=
  let transcript := p.entries.take boundary ++ [.message p.instruction]
  { request := p.mainRequest.withTranscript (request transcript)
    transcript := transcript
    retained := retained
    hasUncoveredExecution := boundary < p.keepFrom }

/-- Without a budget the latest candidate is taken. -/
def unbudgeted (boundary : Nat) : Except CompactError ExecutionCompactPlan := do
  let keepBoundary := min boundary p.keepFrom
  let kept ← if p.isNative keepBoundary then
      (p.nativeItems keepBoundary).map fun items => items.map (·.message)
    else .ok ((p.entries.drop keepBoundary).filterMap Entry.message?)
  let publics := p.retainedPublic.filter fun message =>
    !within message p.initial && !within message kept
  return p.plan boundary (publics ++ kept)

/-- What is selected at a boundary fits a fresh request. -/
def fitsRetained (counter : RequestTokenCounter) (budget : Int) (selected : TailIndex)
    (keepBoundary : Nat) : Bool :=
  decide ((counter.estimateMessages ((p.initial.map (messageTokenCost text)).sum +
    selected.publicCost.getD keepBoundary 0 + selected.requiredCost.getD keepBoundary 0) : Int) ≤
      budget)

def rawIndex (first : Nat) : TailIndex :=
  TailIndex.new text (p.rawItems first) p.entries.length p.initial p.retainedPublic

def nativeIndex (first : Nat) : Except CompactError TailIndex :=
  if p.isNative first then
    (p.nativeItems first).map fun items =>
      TailIndex.new text items p.entries.length p.initial p.retainedPublic
  else .ok (p.rawIndex text first)

/-- The index that a boundary is looked up in. -/
def selected (first : Nat) (native : TailIndex) (boundary : Nat) : TailIndex :=
  if p.isNative (min boundary p.keepFrom) then native else p.rawIndex text first

/-- The latest candidate whose selection fits, by the indexes of the tails. -/
def indexed (counter : RequestTokenCounter) (budget : Int) (candidates : List Nat) :
    Except CompactError ExecutionCompactPlan := do
  let first := min (candidates.headD 0) p.keepFrom
  let native ← p.nativeIndex text first
  match candidates.reverse.find? fun boundary =>
    p.fitsRetained text counter budget (p.selected text first native boundary)
      (min boundary p.keepFrom) with
  | some boundary =>
    return p.plan boundary
      ((p.selected text first native boundary).retained (min boundary p.keepFrom))
  | none => .error (.workCapacity "model_request_capacity")

def executionCompactPlan : Except CompactError ExecutionCompactPlan :=
  let s := p.scan text
  if s.pending ≠ [] ∨ s.candidates = [] then .error (.workCapacity "model_request_capacity")
  else match s.counter, p.inputBudget with
    | some counter, some budget => p.indexed text counter budget s.candidates
    | _, _ => p.unbudgeted (s.candidates.getLastD 0)

end CompactInput

end Yuki.Compaction

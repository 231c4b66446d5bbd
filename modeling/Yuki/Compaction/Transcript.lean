import Yuki.Lib.Attempt
import Yuki.Lib.Dict
import Yuki.Lib.JsonText

/-! Entries of a turn transcript, and the portable message that carries the
results of one tool round. -/

namespace Yuki.Compaction

structure ChatImage where
  dataUrl : String
  source : String
  videoTimestampSeconds : Option Json
  conversationId : Option String
  generation : Option Int
  sourceEventId : Option Int
  attachmentIndex : Option Int
  contentHash : Option String
  expiresAt : Option String
  artifactId : Option String
  workspacePath : Option String
  version : Option String
  toolHandle : Option String
  pluginId : Option String
  pluginMediaHandle : Option String
  pluginToolName : Option String
  pluginApprovalRevision : Option String
deriving DecidableEq

/-- The provider's own state: a tuple of values, or any other value. -/
inductive Payload
  | tuple (values : List Json)
  | value (v : Json)
deriving DecidableEq

structure ProviderContinuation where
  provider : String
  protocol : String
  payload : Payload
  profileId : String
deriving DecidableEq

structure ToolFunction where
  name : String
  arguments : String
deriving DecidableEq

structure ToolCall where
  id : String
  function : ToolFunction
  type : String := "function"
deriving DecidableEq

structure ChatMessage where
  role : String
  content : Option String := none
  toolCalls : List ToolCall := []
  toolCallId : Option String := none
  reasoningContent : Option String := none
  images : List ChatImage := []
  responseItem : Option ProviderContinuation := none
deriving DecidableEq

structure FunctionCallOutput where
  callId : String
  output : String
deriving DecidableEq

inductive Entry
  | message (m : ChatMessage)
  | output (o : FunctionCallOutput)
  | continuation (c : ProviderContinuation)
deriving DecidableEq

/-- The exceptions of the conversion: `results[call.id]`, and `assert start is not None`. -/
inductive TailError
  | keyError (key : String)
  | assertionError
deriving DecidableEq

/-- A string that Python takes as true. -/
def truthy : Option String → Bool
  | some s => s ≠ ""
  | none => false

def roundInstruction : String :=
  "These are original recorded tool results awaiting observation. " ++
    "Continue from these results; do not replay the original calls."

/-- The entry of one call in the evidence of its round. -/
def callEntry (callKey : Option (String → Option String)) (call : ToolCall) (result : String) : Json :=
  .obj ([("call_id", .str call.id)] ++
    (match callKey.bind fun key => key call.id with
      | some key => [("effect_key", .str key)]
      | none => []) ++
    [("tool", .str call.function.name), ("arguments", .str call.function.arguments),
      ("result", .str result)])

def strOrNull : Option String → Json
  | some s => .str s
  | none => .null

/-- The user message that carries a round. -/
def evidenceMessage (content : Option String) (calls : List Json) : ChatMessage where
  role := "user"
  content := some (Json.obj [("kind", .str "work_unobserved_tool_round"),
    ("content", strOrNull content), ("calls", .arr calls),
    ("instruction", .str roundInstruction)]).dumps

/-- `results[call.id]` for every call of the response, in the order of the calls. -/
def callEntries (callKey : Option (String → Option String)) (results : Dict String String) :
    List ToolCall → Except TailError (List Json)
  | [] => .ok []
  | call :: calls => do
    let result ← expect (results.lookup call.id) (.keyError call.id)
    let entries ← callEntries callKey results calls
    return callEntry callKey call result :: entries

def toolResultEvidence (assistant : Option ChatMessage) (results : Dict String String)
    (callKey : Option (String → Option String)) : Except TailError ChatMessage :=
  match assistant with
  | some response => do
    let calls ← callEntries callKey results response.toolCalls
    return evidenceMessage response.content calls
  | none => return evidenceMessage none (results.map fun item =>
      .obj [("call_id", .str item.1), ("result", .str item.2)])

theorem callEntries_eq_ok (callKey : Option (String → Option String)) {results : Dict String String}
    {calls : List ToolCall} (out : String → String)
    (h : ∀ call ∈ calls, results.lookup call.id = some (out call.id)) :
    callEntries callKey results calls =
      .ok (calls.map fun call => callEntry callKey call (out call.id)) := by
  induction calls with
  | nil => rfl
  | cons call calls ih =>
    have hc : results.lookup call.id = some (out call.id) := h call (by simp)
    have hrest := ih fun c hm => h c (by simp [hm])
    simp [callEntries, hc, hrest, expect, ok_bind, pure, Except.pure]

theorem lookup_of_callEntries {callKey : Option (String → Option String)}
    {results : Dict String String} {calls : List ToolCall} {entries : List Json}
    (h : callEntries callKey results calls = .ok entries) :
    ∀ call ∈ calls, ∃ out, results.lookup call.id = some out := by
  induction calls generalizing entries with
  | nil => simp
  | cons call calls ih =>
    simp only [callEntries, bind_eq_ok, expect_eq_ok] at h
    obtain ⟨out, hout, rest, hrest, -⟩ := h
    intro c hc
    obtain rfl | hm := List.mem_cons.1 hc
    · exact ⟨out, hout⟩
    · exact ih hrest c hm

end Yuki.Compaction

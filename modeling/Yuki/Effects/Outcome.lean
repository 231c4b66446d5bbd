import Yuki.Runtime.Admission

/-! What a tool's result says about its effect, and how stored receipts are read back. -/

namespace Yuki

structure ToolExecutionResult where
  ok : Bool
  data : Json := .null
  errorCode : Option String := none
  retryable : Bool := false
  mutationCommitted : Option Bool := none
  requestPostconditionSatisfied : Option Bool := none
  uncertain : Bool := false
  providerId : String := ""
  /-- A text, unless an old receipt holds something else. -/
  toolName : Json := .str ""
  sourceEventIds : List Int := []
  sourcePrivacyGeneration : Option Int := none

namespace Json

def ofBool? : Option Bool → Json
  | some b => .bool b
  | none => .null

def ofStr? : Option String → Json
  | some s => .str s
  | none => .null

def ofInt? : Option Int → Json
  | some n => .int n
  | none => .null

/-- `v in {…}`; a list or a dictionary cannot be hashed. -/
def hashedIn (v : Json) (names : List String) : Except Err Bool := do
  require (v.isArr = false ∧ v.isObj = false) (.runtime "TypeError")
  return names.any fun n => v == .str n

/-- `v in (None, 0)`. -/
def noneOrZero (v : Json) : Bool :=
  v == .null || v.pyEq (.int 0)

mutual

/-- Every dictionary inside a value, in the order a walk from the front meets them. -/
def dicts : Json → List Json
  | .arr xs => dictsItems xs
  | .obj fs => .obj fs :: dictsFields fs
  | _ => []

def dictsItems : List Json → List Json
  | [] => []
  | x :: xs => dicts x ++ dictsItems xs

def dictsFields : List (String × Json) → List Json
  | [] => []
  | f :: fs => dicts f.2 ++ dictsFields fs

end

/-- The `repr` of a string, single quotes preferred. -/
def pyQuote (s : String) : String :=
  let quote := if s.toList.contains '\'' && !s.toList.contains '"' then '"' else '\''
  let escape (c : Char) : List Char :=
    if c = '\\' then ['\\', '\\'] else if c = quote then ['\\', quote]
    else if c = '\n' then ['\\', 'n'] else if c = '\r' then ['\\', 'r']
    else if c = '\t' then ['\\', 't']
    else if c.toNat < 32 ∨ c.toNat = 127 then
      ['\\', 'x', hexDigit (c.toNat / 16), hexDigit (c.toNat % 16)]
    else [c]
  String.ofList (quote :: s.toList.flatMap escape ++ [quote])

mutual

def pyRepr : Json → String
  | .null => "None"
  | .bool true => "True"
  | .bool false => "False"
  | .int n => toString n
  | .real m e => String.ofList (renderReal m e)
  | .str s => pyQuote s
  | .arr xs => "[" ++ ", ".intercalate (pyReprItems xs) ++ "]"
  | .obj fs => "\x7b" ++ ", ".intercalate (pyReprFields fs) ++ "\x7d"

def pyReprItems : List Json → List String
  | [] => []
  | x :: xs => pyRepr x :: pyReprItems xs

def pyReprFields : List (String × Json) → List String
  | [] => []
  | f :: fs => (pyQuote f.1 ++ ": " ++ pyRepr f.2) :: pyReprFields fs

end

/-- `str(v)`. -/
def pyStr : Json → String
  | .str s => s
  | j => j.pyRepr

end Json

open Json

/-- `process_receipt`. -/
def processReceipt (result : ToolExecutionResult) : Except Err Json := do
  let observing ← onlyIf (result.providerId == "core") false (result.toolName.hashedIn
    ["run_python", "get_code_run", "terminal_exec", "terminal_read", "external_agent"])
  if !observing || !result.data.isObj then return .obj []
  else do
    let known ← onlyIf (result.toolName == .str "external_agent") true
      ((result.data.get "kind").hashedIn ["external_agent", "acp_prompt"])
    if !known then return .obj []
    else do
      let completion := result.data.get "completion"
      let body := if completion.isObj then completion else result.data
      let receipt : Json := .obj (["run_id", "peer_id", "device_id", "instance_id", "operation_id",
        "execution_id", "session_id", "status", "pending", "exit_code", "output_lost"].filterMap
          fun key => match body.get? key with
            | some (.str s) => some (key, .str s)
            | some (.int n) => some (key, .int n)
            | some (.bool b) => some (key, .bool b)
            | _ => none)
      let status := body.get "status"
      let unknown ← onlyIf (!(result.uncertain || (body.get "uncertain").truthy)) true
        (status.hashedIn ["uncertain", "unknown"])
      if unknown then return receipt
      else do
        let failed ← status.hashedIn ["failed", "cancelled"]
        let badExit := match body.get "exit_code" with
          | .int n => n != 0
          | _ => false
        if failed || badExit then return receipt.set "succeeded" (.bool false)
        else if status == .str "succeeded" && (body.get "exit_code").noneOrZero &&
            !(body.get "pending").truthy && !(body.get "error").truthy then
          return receipt.set "succeeded" (.bool true)
        else return receipt

/-- What a sending tool delivered: the artifacts, whether a caption arrived, and the text. -/
structure Delivery where
  delivered : List Json := []
  extra : List Json := []
  captionDelivered : Bool := false
  deliveredMessage : Bool := false

def succeeded (step : Json) : Bool :=
  step.get "status" == .str "succeeded"

/-- The steps of a sending tool's result. -/
def sendSteps (body : Json) : List Json :=
  match body.get "parts" with
  | .arr parts => parts
  | _ =>
    if (body.get "file").isObj && (body.get "caption").isObj then
      [body.get "file", body.get "caption"] else [body]

def sendDelivery (tool body args : Json) : Delivery :=
  let steps := (sendSteps body).filter isObj
  let delivered := ((steps.filter fun s => (s.get "artifact_id").isStr && succeeded s).map
    fun s => s.get "artifact_id").eraseDups
  let textSteps := steps.filter fun s => s.get "text_planned" == .bool true ||
    (s.get "delivered_text_available" == .bool true && (s.get "delivered_text").truthy)
  let caption := !textSteps.isEmpty && textSteps.all fun s =>
    succeeded s && s.get "delivered_text_available" == .bool true
  let originalFile := body.getD "file" body
  let original := args.get "artifact_id"
  let extra := if tool == .str "send_message" && original.isStr && originalFile.isObj &&
      succeeded originalFile && !delivered.contains original then [original] else []
  let originalCaption := body.get "caption"
  let caption := if tool == .str "send_message" && textSteps.isEmpty then
      (originalCaption.isObj && succeeded originalCaption) ||
        (args.get "attachment_kind" == .str "image" && succeeded body)
    else caption
  { delivered := delivered, extra := extra, captionDelivered := caption
    deliveredMessage := (match args.get "text" with
      | .str text => !blank text
      | _ => false) &&
      if tool == .str "send_message" && !(args.get "attachment_kind").truthy then succeeded body
      else caption }

/-- The part of an external agent's result that controls it. -/
def controlBody (body args : Json) : Json :=
  match args.get "action" with
  | .str "respond" => body.getD "permission_response" body
  | .str "close" => body.get "close"
  | .str "cancel" => body
  | .str "detach" => body
  | .str "steer" => body
  | .str "watch" => body
  | _ => .null

/-- Members of `body` named here, kept when `keep` holds of them. -/
def retained (body : Json) (keep : Json → Bool) (names : List String) : List (String × Json) :=
  names.filterMap fun name => ((body.get? name).filter keep).map fun v => (name, v)

/-- The facts of one execution, before they are written down. -/
structure Evidence where
  tool : Json
  action : Option Json
  sideEffecting : Json
  body : Json
  artifacts : List Json
  sent : Delivery
  admitted : Bool
  ok : Bool
  pending : Bool
  uncertain : Bool
  status : Json
  outcome : ToolExecutionResult
  observed : List Json
  process : Json

namespace Evidence

/-- Everything a sending tool delivered. -/
def delivered (e : Evidence) : List Json :=
  e.sent.delivered ++ e.sent.extra

/-- The members that come before the verdict. -/
def subject (e : Evidence) : List (String × Json) :=
  [("tool", e.tool)] ++ e.action.toList.map (fun a => ("action", a)) ++
    [("side_effecting", e.sideEffecting),
      ("artifacts", .arr (e.artifacts ++ e.delivered).eraseDups),
      ("delivered_artifacts", .arr e.delivered),
      ("caption_delivered", .bool e.sent.captionDelivered),
      ("delivered_message", .bool e.sent.deliveredMessage),
      ("delivery_target", if !e.delivered.isEmpty || e.sent.deliveredMessage then
        e.body.get "target" else .null),
      ("run_id", e.body.get "run_id")] ++
    retained e.body isStr
      ["operation_id", "device_id", "instance_id", "session_id", "execution_id"] ++
    retained e.body (fun _ => true) ["operation_status", "native_status", "native_pending"] ++
    retained e.body isStr ["request_id", "resource_request_id"]

/-- The verdict itself. -/
def verdict (e : Evidence) : List (String × Json) :=
  [("ok", .bool e.ok), ("pending", .bool e.pending), ("uncertain", .bool e.uncertain),
    ("status", e.status), ("error_code", ofStr? e.outcome.errorCode),
    ("retryable", .bool e.outcome.retryable),
    ("mutation_committed", if e.admitted then .bool true else ofBool? e.outcome.mutationCommitted)]

/-- What is added only when there is something to add. -/
def extras (e : Evidence) : List (String × Json) :=
  (if e.outcome.ok && !e.outcome.uncertain &&
      e.outcome.requestPostconditionSatisfied == some true then
    [("request_postcondition_satisfied", .bool true)] else []) ++
  [("executed", e.body.getD "executed" (.bool true))] ++
  (if e.outcome.sourceEventIds.isEmpty then [] else
    [("source_event_ids", .arr (e.outcome.sourceEventIds.map Json.int)),
      ("source_privacy_generation", ofInt? e.outcome.sourcePrivacyGeneration)]) ++
  (if e.observed.isEmpty then [] else [("observed_event_ids", .arr e.observed.eraseDups)]) ++
  if e.process.truthy then [("process", e.process)] else []

def json (e : Evidence) : Json :=
  .obj (e.subject ++ e.verdict ++ e.extras)

end Evidence

/-- The progress a result reports, else the result itself. -/
def progressBody (data : Json) : Json :=
  let value := if data.isObj then data else .obj []
  if (value.get "progress").isObj then value.get "progress" else value

/-- Whether a control of an external agent was taken up. -/
def controlAdmitted (control : Json) : Bool :=
  control.isObj && (control.get "admitted" == .bool true ||
    control.get "cancel_requested" == .bool true)

/-- The verdict's status: a text, or null. -/
def effectStatus (admitted : Bool) (effectBody : Json) : Json :=
  if admitted then .str "admitted"
  else if (effectBody.get "status").isStr then effectBody.get "status" else .null

def among (status : Json) (names : List String) : Bool :=
  names.any fun n => status == .str n

/-- `execution_evidence` before it is written down; `args` are the decoded arguments,
`{}` when they do not decode. -/
def readExecution (outcome : ToolExecutionResult) (tool sideEffecting args : Json) :
    Except Err Evidence := do
  let body := progressBody outcome.data
  let sending ← tool.hashedIn ["send", "send_message"]
  let agent := tool == .str "external_agent" || tool == .str "local_device"
  let reading ← onlyIf (agent && args.isObj) false ((args.get "action").hashedIn ["list", "get"])
  let control := if tool == .str "external_agent" && args.isObj then controlBody body args else .null
  let admitted := controlAdmitted control
  let effectBody := if control.isObj then control else body
  let status := effectStatus admitted effectBody
  let process ← processReceipt outcome
  return {
    tool := tool
    action := if agent && args.isObj then some (args.get "action") else none
    sideEffecting := if reading then .bool false else sideEffecting
    body := body
    artifacts := body.dicts.filterMap fun d =>
      if (d.get "artifact_id").isStr then some (d.get "artifact_id") else none
    sent := if sending && args.isObj then sendDelivery tool body args else {}
    admitted := admitted
    ok := admitted || (outcome.ok && !(effectBody.get "error").truthy &&
      process.get "succeeded" != .bool false &&
      !among status ["failed", "cancelled", "uncertain", "unknown"] &&
      (effectBody.get "exit_code").noneOrZero)
    pending := !admitted && ((effectBody.get "pending").truthy ||
      among status ["running", "queued", "waiting"])
    uncertain := !admitted && (outcome.uncertain || (effectBody.get "uncertain").truthy ||
      among status ["uncertain", "unknown"])
    status := status
    outcome := outcome
    observed := body.dicts.filterMap fun d => match d.get "event_id" with
      | .int n => if sending && succeeded d then some (Json.int n) else none
      | _ => none
    process := process }

/-- `execution_evidence`. -/
def executionEvidence (outcome : ToolExecutionResult) (tool sideEffecting args : Json) :
    Except Err Json :=
  (readExecution outcome tool sideEffecting args).map Evidence.json

/-- A boolean member of a historical receipt; null counts as absent. -/
def boolField (raw : Json) (key : String) : Except Err (Option Bool) :=
  match raw.get key with
  | .null => .ok none
  | .bool b => .ok (some b)
  | _ => .error (.valueError ("invalid_historical_receipt_boolean:" ++ key))

/-- What is left of a historical dictionary once its typed members are taken out. -/
def historicalRest (raw : Json) : Json :=
  ["ok", "error_code", "error", "public_message", "detail", "mutation_committed",
    "finalize_after_commit", "retryable", "uncertain", "evidence_state",
    "memory_grounding_policy"].foldl Json.erase raw

/-- The result a historical dictionary stands for. -/
def historicalResult (raw : Json) (providerId : String) (toolName : Json)
    (okField committed retryable uncertain : Option Bool) : ToolExecutionResult :=
  let ok := okField.getD true
  let unsure := uncertain.getD false
  let error := raw.getD "error_code" (raw.get "error")
  let rest := historicalRest raw
  { ok := ok
    data := rest.getD "data" (if rest.truthy then rest else .null)
    errorCode := if error = .null then none else some error.pyStr
    retryable := retryable.getD false
    mutationCommitted := if unsure then none else if !ok then some false else committed
    uncertain := unsure
    providerId := providerId
    toolName := toolName }

/-- `normalize_legacy_result`. -/
def normalizeLegacyResult (value : Json) (providerId : String) (toolName : Json) :
    Except Err ToolExecutionResult := do
  require (value.isStr ∨ value.isObj) (.runtime "TypeError")
  let payload := match value with
    | .str s => loads s
    | v => some v
  match payload with
  | none => return { ok := true, data := value, providerId := providerId, toolName := toolName }
  | some (.obj fs) => do
    let raw := Json.obj fs
    let okField ← boolField raw "ok"
    let committed ← boolField raw "mutation_committed"
    let _ ← boolField raw "finalize_after_commit"
    let retryable ← boolField raw "retryable"
    let uncertain ← boolField raw "uncertain"
    -- A present null is no bool, and the result's own check refuses it.
    require (raw.get? "ok" ≠ some .null) (.runtime "TypeError")
    return historicalResult raw providerId toolName okField committed retryable uncertain
  | some v => return { ok := true, data := v, providerId := providerId, toolName := toolName }

/-- An exact transport receipt of the final answer: `some true` accepted, `some false` refused. -/
def finalTransport (receipt : Json) (state : EffectState) (kind : String) : Option Bool :=
  let is (key : String) (expected : Bool) : Bool :=
    receipt.getD key (.bool expected) == .bool expected
  if kind ≠ "final" || ["outcome", "result", "status", "ok"].any receipt.has then none
  else if state == .accepted && receipt.get "transport_accepted" == .bool true &&
      !receipt.has "error" && is "pending" false && is "uncertain" false && is "executed" true &&
      is "mutation_committed" true then some true
  else if state == .failed && receipt.get "error" == .str "delivery_not_dispatched" &&
      receipt.get "executed" == .bool false && receipt.get "mutation_committed" == .bool false &&
      !receipt.has "transport_accepted" && is "pending" false && is "uncertain" false then
    some false
  else none

/-- The evidence of an exact transport receipt. -/
def transportEvidence (accepted : Bool) : Json :=
  .obj [("tool", .str "final_delivery"), ("side_effecting", .bool true), ("ok", .bool accepted),
    ("executed", .bool accepted), ("mutation_committed", .bool accepted),
    ("pending", .bool false), ("uncertain", .bool false),
    ("status", .str (if accepted then "succeeded" else "not_dispatched")),
    ("transport_accepted", .bool accepted),
    ("error_code", if accepted then .null else .str "delivery_not_dispatched")]

/-- Whether a stored outcome is typed well enough to be believed. -/
def validEvidence (evidence : Json) : Bool :=
  evidence.isObj &&
    ((evidence.get "ok").isBool || evidence.get "pending" == .bool true ||
      evidence.get "uncertain" == .bool true || evidence.get "side_effecting" == .bool false) &&
    (["ok", "pending", "uncertain", "side_effecting", "executed", "retryable"].all fun key =>
      (evidence.get? key).all isBool) &&
    (evidence.get "status" == .null || (evidence.get "status").isStr) &&
    (evidence.get "mutation_committed" == .null || (evidence.get "mutation_committed").isBool)

/-- The dictionary behind the text shown to the model. -/
def legacyPayload : Json → Json
  | .str s => (loads s).getD .null
  | v => v

def legacyData (payload : Json) : Json :=
  if (payload.getD "data" payload).isObj then payload.getD "data" payload else payload

/-- The typed reading of a receipt that kept only the text shown to the model. -/
def legacyEvidence (receipt : Json) (originalTool : String) : Except Err Json := do
  let payload := legacyPayload (receipt.get "result")
  let original := legacyData payload
  let body := progressBody original
  let unknown : Err := .valueError "historical_outcome_unknown"
  require (payload.isObj ∧ (payload.get "ok").isBool ∧ payload.get "truncated" ≠ .bool true) unknown
  require (body.get "status" = .null ∨ (body.get "status").isStr) unknown
  require (body.get "truncated" ≠ .bool true) unknown
  require (["pending", "uncertain", "executed"].all fun key => (body.get? key).all isBool) unknown
  let result ← normalizeLegacyResult payload "historical" (.str originalTool)
  let invocation := receipt.getD "invocation" (.obj [])
  executionEvidence { result with data := original } (.str originalTool) (.bool true)
    (if invocation.isObj then .obj [("action", invocation.get "action")] else .obj [])

/-- The tool a receipt's invocation names, else the one the reader assumes. -/
def originalTool (receipt : Json) (assumed : String) : String :=
  match (receipt.getD "invocation" (.obj [])).get "tool_id" with
  | .str tool => tool
  | _ => assumed

def unknownEvidence : Json :=
  .obj [("ok", .bool false), ("uncertain", .bool true), ("side_effecting", .bool true),
    ("executed", .bool true)]

/-- The evidence before the row's state is taken into account. -/
def readEvidence (receipt : Json) (tool : String) : Json :=
  let evidence := receipt.get "outcome"
  if validEvidence evidence then evidence
  else if evidence == .null || evidence == .obj [] then
    match legacyEvidence receipt tool with
    | .ok result => result
    | .error _ => unknownEvidence
  else
    let result := (((Json.obj evidence.fields).set "ok" (.bool false)).set "uncertain"
      (.bool true)).set "side_effecting" (.bool true) |>.set "executed" (.bool true)
    if result.get "status" == .null || (result.get "status").isStr then result
    else result.erase "status"

/-- `historical_evidence`. -/
def historicalEvidence (receipt : Json) (state : EffectState) (kind : String) : Json :=
  match finalTransport receipt state kind with
  | some accepted => transportEvidence accepted
  | none =>
    let invocation := receipt.getD "invocation" (.obj [])
    let result := readEvidence receipt (originalTool receipt "legacy_tool")
    let status := result.get "status"
    let result :=
      if status == .str "unknown" || status == .str "uncertain" then
        (result.set "ok" (.bool false)).set "uncertain" (.bool true)
      else if status == .str "running" || status == .str "queued" || status == .str "waiting" then
        result.set "pending" (.bool true)
      else result
    let result :=
      if invocation.get "tool_id" == .str "external_agent" then
        let named := result.set "tool" (.str "external_agent")
        match invocation.get? "action" with
        | some action => if named.has "action" then named else named.set "action" action
        | none => named
      else result
    if (state == .prepared || state == .unknown) &&
        result.get "side_effecting" != .bool false then
      result.set "uncertain" (.bool true)
    else result

/-- `execution_finished`. -/
def executionFinished (evidence : Json) : Bool :=
  (["completed", "succeeded", "failed", "cancelled", "detached"].any fun n =>
      evidence.getD "operation_status" (evidence.get "status") == .str n) &&
    !(evidence.get "pending").truthy && !(evidence.get "uncertain").truthy

/-- `is_execution`. -/
def isExecution (name action : Json) : Except Err Bool :=
  if name == .str "terminal_exec" then .ok true
  else if name == .str "external_agent" then action.hashedIn ["prompt", "queue"]
  else .ok false

end Yuki

import Yuki.Lib.Attempt
import Yuki.Lib.JsonOrder
import Yuki.Lib.Table

/-! The server's side of an external agent: operations, their stored receipts,
and the task runs that wait for them. -/

namespace Yuki.ExternalAgents

structure AgentOperation where
  id : String
  instanceId : String
  sessionId : Option String := none
  nativeExecutionId : Option String := none
  workId : Option String := none
  action : String
  command : Json := .obj []
  runId : Option String := none
  resultJson : Option Json := none
  detachedAt : Option Int := none
deriving DecidableEq, Repr

inductive TaskRunStatus
  | waiting | completed
deriving DecidableEq, Repr

/-- A `SandboxTaskRun` of an operation; `progress` is its session. -/
structure TaskRun where
  requestId : String
  status : TaskRunStatus := .waiting
  progress : Option String := none
  completion : Option Json := none
deriving DecidableEq, Repr

inductive ContinuationState
  | ready | claimed | observed | finished | uncertain | blocked
deriving DecidableEq, Repr

structure Continuation where
  requestId : String
  state : ContinuationState := .ready
  attempts : Nat := 0
deriving DecidableEq, Repr

/-- A connector event on the wire; an absent member is `none`. -/
structure WireEvent where
  eventId : String
  kind : String
  instanceId : String
  operationId : Option String := none
  sessionId : Option Json := none
  executionId : Option Json := none
  payload : Option Json := none
  sequence : Option Json := none
  operationState : Option Json := none
deriving DecidableEq, Repr

/-- A stored event, with its members in the order of `encode`. -/
structure EventRecord where
  deviceId : String
  operationId : Option String
  event : WireEvent
deriving DecidableEq, Repr

/-- A mailbox input of a Work. -/
structure AgentInput where
  sourceKey : String
  workId : String
  event : WireEvent
deriving DecidableEq, Repr

inductive AgentError
  | deviceRejected | instanceUnknown | operationUnknown | eventMismatch | eventConflict
  | invalidEvent | sessionMismatch | executionMismatch | duplicateContinuation
deriving DecidableEq, Repr

/-- The identities of instances, sessions and executions: `uuid5` of their native names. -/
structure AgentKeys where
  instanceOf : String → String → Option String
  session : String → String → String
  execution : String → String → String

structure AgentStore where
  operations : Table AgentOperation.id
  runs : Table TaskRun.requestId
  continuations : Table Continuation.requestId
  events : Table fun record : EventRecord => (record.deviceId, record.event.eventId)
  inputs : Table AgentInput.sourceKey

/-- `session_observation`. -/
def AgentOperation.sessionObservation (row : AgentOperation) : Bool :=
  decide (row.action = "watch" ∧ row.command.get "observation_scope" = .str "session")

/-- `json.loads(row.result_json or "{}")`. -/
def AgentOperation.previous (row : AgentOperation) : Json :=
  row.resultJson.getD (.obj [])

variable (keys : AgentKeys)

/-- The session of `_bind_native`. -/
def bindSession (row : AgentOperation) (native : Json) : Except AgentError AgentOperation :=
  match native with
  | .str native =>
    let internal := keys.session row.instanceId native
    if row.sessionId = none ∨ row.sessionId = some internal then
      .ok { row with sessionId := some internal }
    else .error .sessionMismatch
  | _ => .ok row

/-- The execution of `_bind_native`. -/
def bindExecution (row : AgentOperation) (native : Json) : Except AgentError AgentOperation :=
  match native with
  | .str execution =>
    if row.sessionObservation then .ok row
    else if row.nativeExecutionId = none ∨ row.nativeExecutionId = some execution then
      .ok { row with nativeExecutionId := some execution }
    else .error .executionMismatch
  | _ => .ok row

/-- `_bind_native`, on the row. -/
def bindNative (row : AgentOperation) (sessionId executionId : Json) :
    Except AgentError AgentOperation := do
  let row ← bindSession keys row sessionId
  bindExecution row executionId

/-- The status of a completed run, where the native status has one. -/
def completionStatus (payload : Json) : Option String :=
  let native := payload.get "status"
  if native = .str "completed" ∨ native = .str "succeeded" then some "succeeded"
  else if native = .str "cancelled" ∨ native = .str "interrupted" then some "cancelled"
  else if (payload.get "error").truthy ∨ native = .str "failed" then some "failed"
  else if native = .str "detached" then some "succeeded"
  else none

def optional (o : Option String) : Json :=
  match o with
  | some s => .str s
  | none => .null

/-- The `completion_json` of a receipt. -/
def completionJson (row : AgentOperation) (payload : Json) (status : String) : Json :=
  let execution := row.sessionId.bind fun session =>
    row.nativeExecutionId.map fun native => keys.execution session native
  let reference := Json.obj
    [("session_id", payload.get "session_id"), ("execution_id", optional row.nativeExecutionId)]
  [("kind", .str "external_agent"), ("request_id", .str row.id), ("operation_id", .str row.id),
    ("run_id", optional row.runId), ("instance_id", .str row.instanceId),
    ("session_id", optional row.sessionId), ("execution_id", optional execution),
    ("native_reference", reference), ("status", .str status),
    ("native_status", payload.getD "native_status" (payload.get "status")),
    ("pending", .bool false),
    ("admitted", .bool (decide (payload.get "admitted" = .bool true)))].foldl
      (fun result member => result.set member.1 member.2) payload

/-- `_complete`. -/
def completeRun (store : AgentStore) (row : AgentOperation) (payload : Json) :
    Except AgentError AgentStore :=
  match completionStatus payload with
  | none => .ok store
  | some status =>
    match store.runs.get? row.id with
    | none => .ok store
    | some run =>
      if run.status = .completed then .ok store
      else if (store.continuations.get? row.id).isSome then .error .duplicateContinuation
      else .ok { store with
        runs := store.runs.update (fun run => decide (run.requestId = row.id)) fun run =>
          { run with status := .completed, completion := some (completionJson keys row payload status) }
        continuations := store.continuations.insert ⟨row.id, .ready, 0⟩ }

/-- `result.get("state_sequence", -1) <= previous["state_sequence"]`, where the latter is there. -/
def superseded (previous result : Json) : Bool :=
  match previous.get? "state_sequence", result.getD "state_sequence" (.int (-1)) with
  | some (.int p), .int r => decide (r ≤ p)
  | _, _ => false

/-- `_project`, with the row it leaves. -/
def project (store : AgentStore) (row : AgentOperation) (result : Json) :
    Except AgentError (AgentStore × AgentOperation) :=
  let previous := row.previous
  if row.detachedAt.isSome ∨ previous.get "pending" = .bool false then .ok (store, row)
  else if superseded previous result then .ok (store, row)
  else
    let row := { row with resultJson := some result }
    if (row.runId.getD "") = "" then .ok (store, row)
    else
      let store := { store with
        runs := store.runs.update
          (fun run => decide (run.requestId = row.id ∧ run.status = .waiting))
          fun run => { run with progress := row.sessionId } }
      if result.get "pending" = .bool false then
        (completeRun keys store row result).map (·, row)
      else .ok (store, row)

/-! `receive_events`. -/

/-- `encode`. -/
def WireEvent.encode (event : WireEvent) : WireEvent :=
  { event with
    sessionId := event.sessionId.map Json.sortKeys
    executionId := event.executionId.map Json.sortKeys
    payload := event.payload.map Json.sortKeys
    sequence := event.sequence.map Json.sortKeys
    operationState := event.operationState.map Json.sortKeys }

/-- `event.get("operation_state")`. -/
def WireEvent.state (event : WireEvent) : Json :=
  event.operationState.getD .null

/-- A stored event is the incoming one, or its fact from before projections. -/
def sameFact (stored incoming : WireEvent) : Bool :=
  decide (stored = incoming.encode) ||
    decide (stored.sequence = none ∧ stored.operationState = none ∧
      stored = { incoming.encode with sequence := none, operationState := none })

/-- What a call of `receive_events` finds outside the tables: whether the device may write, and
which operations have a live Work whose actor may receive inputs. -/
structure Delivery where
  events : List WireEvent
  deviceAllowed : Bool := true
  live : String → Bool

/-- The operation that an event names. -/
def namedOperation (store : AgentStore) (operationId : Option String) :
    Except AgentError (Option AgentOperation) :=
  match operationId with
  | none | some "" => .ok none
  | some id => (expect (store.operations.get? id) .operationUnknown).map some

/-- An event of an active operation has a payload and a state under its own sequence. -/
def WireEvent.valid (event : WireEvent) : Bool :=
  (event.payload.getD (.obj [])).isObj && event.state.isObj &&
    match event.sequence with
    | some (.int n) => decide (event.state.get "state_sequence" = .int n)
    | _ => false

/-- The state names another session or execution than the event. -/
def WireEvent.rebinds (event : WireEvent) : Bool :=
  decide (event.state.get "session_id" ≠ .null ∧
    event.state.get "session_id" ≠ event.sessionId.getD .null) ||
  decide (event.state.get "execution_id" ≠ .null ∧
    event.state.get "execution_id" ≠ event.executionId.getD .null)

/-- The second `_bind_native`, with the names of the state. -/
def rebind (row : AgentOperation) (event : WireEvent) : Except AgentError AgentOperation :=
  if event.rebinds then
    bindNative keys row (event.state.get "session_id") (event.state.get "execution_id")
  else .ok row

def AgentStore.save (store : AgentStore) (row : AgentOperation) : AgentStore :=
  { store with
    operations := store.operations.update (fun r => decide (r.id = row.id)) fun r =>
      { row with id := r.id } }

/-- `_input`, for an operation of a live Work. -/
def addInput (store : AgentStore) (row : AgentOperation) (event : WireEvent) : AgentStore :=
  match row.workId with
  | none => store
  | some workId =>
    { store with
      inputs := store.inputs.insert
        ⟨"external-agent:" ++ event.eventId ++ ":" ++ row.id, workId, event⟩ }

/-- The consequences of a new event for its operation. -/
def applyEvent (live : String → Bool) (store : AgentStore) (row : AgentOperation)
    (event : WireEvent) : Except AgentError AgentStore := do
  require (event.valid = true) .invalidEvent
  let ended := decide (row.previous.get "pending" = .bool false)
  let row ← bindNative keys row (event.sessionId.getD .null) (event.executionId.getD .null)
  let row ← rebind keys row event
  let (store, row) ← project keys store row event.state
  let store := store.save row
  if event.state.get "pending" ≠ .bool false ∧ !ended ∧ live row.id then
    return addInput store row event
  else return store

def receiveEvent (deviceId : String) (live : String → Bool) (store : AgentStore)
    (event : WireEvent) : Except AgentError AgentStore := do
  let instanceId ← expect (keys.instanceOf deviceId event.instanceId) .instanceUnknown
  let operation ← namedOperation store event.operationId
  require (∀ row ∈ operation, row.instanceId = instanceId) .eventMismatch
  match store.events.get? (deviceId, event.eventId) with
  | some record =>
    require (sameFact record.event event = true) .eventConflict
    return store
  | none =>
    let record : EventRecord := ⟨deviceId, operation.map (·.id), event.encode⟩
    let store := { store with events := store.events.insert record }
    match operation with
    | none => return store
    | some row =>
      if row.detachedAt.isSome then return store
      else applyEvent keys live store row event

/-- One transaction over the events that are no token deltas. -/
def receiveEvents (deviceId : String) (store : AgentStore) (d : Delivery) :
    Except AgentError AgentStore := do
  let prepared := d.events.filter fun event => decide (event.kind ≠ "delta")
  if prepared = [] then return store
  require (d.deviceAllowed = true) .deviceRejected
  prepared.foldlM (receiveEvent keys deviceId d.live) store

/-- A call as its caller sees it; an exception rolls the transaction back. -/
def AgentStore.receive (deviceId : String) (store : AgentStore) (d : Delivery) : AgentStore :=
  (receiveEvents keys deviceId store d).toOption.getD store

end Yuki.ExternalAgents

import Yuki.Lib.Attempt
import Yuki.Lib.JsonOrder
import Yuki.Lib.Table
import Yuki.Lib.Transition

/-! The connector's journal: original commands, their receipts, and the events
that wait for an acknowledgement. -/

namespace Yuki.Connector

def observedActions : List String := ["watch", "prompt", "queue", "exec"]

/-- `TERMINAL`. -/
def terminalStatuses : List String := ["completed", "succeeded", "failed", "cancelled", "detached"]

inductive JournalError
  | reused | notRecorded | missingOperation | missing (key : String) | unhashable | duplicate
  | invalidData
deriving DecidableEq, Repr

/-- A command; `fields` holds its members besides the identity and the action. -/
structure Command where
  id : String
  action : String
  fields : Json := .obj []
deriving DecidableEq, Repr

/-- A native event as a driver emits it. -/
structure AgentEvent where
  eventId : String
  type : Option String := some "event"
  kind : String
  operationId : Option String := none
  sessionId : Json := .null
  executionId : Json := .null
  payload : Json := .obj []
  result : Json := .obj []
  snapshotSequence : Option Int := none
deriving DecidableEq, Repr

inductive Response
  | error (error : Json)
  | result (result : Json)
deriving DecidableEq, Repr

def Command.observed (c : Command) : Bool :=
  decide (c.action ∈ observedActions)

def Command.sessionScope (c : Command) : Bool :=
  decide (c.fields.get "observation_scope" = .str "session")

/-- `original_command`; `digest` decodes the data of a write and hashes it. -/
def originalCommand (digest : Json → Option String) (c : Command) : Except JournalError Command :=
  if c.fields.get "resource" = .str "file" ∧ c.action = "write" then do
    let args ← expect (c.fields.get? "arguments") (.missing "arguments")
    if args.has "data_base64" then
      let sha ← expect (digest (args.get "data_base64")) .invalidData
      let args := (args.erase "data_base64").set "data_sha256" (.str sha)
      return { c with fields := c.fields.set "arguments" args }
    else return c
  else if c.action = "watch" then
    .ok { c with fields := (Json.obj [("observation_scope", .str "execution")]).merge c.fields }
  else .ok c

/-! Receipts. -/

/-- `status in TERMINAL`, as a fact about a stored status. -/
def terminal (status : Json) : Bool :=
  match status with
  | .str s => decide (s ∈ terminalStatuses)
  | _ => false

/-- `status in TERMINAL`, which a list or an object cannot be asked. -/
def inTerminal (status : Json) : Except JournalError Bool :=
  match status with
  | .arr _ | .obj _ => .error .unhashable
  | _ => .ok (terminal status)

/-- `action in OBSERVED_ACTIONS and status not in TERMINAL`. -/
def Command.observing (c : Command) (status : Json) : Except JournalError Bool :=
  if c.observed then (inTerminal status).map (!·) else .ok false

/-- The order of a receipt. -/
def withSequence (state : Json) (sequence : Nat) : Json :=
  state.set "state_sequence" (.int sequence)

def foldReceipt (previous facts : Json) (sequence : Nat) : Except JournalError Json := do
  if ← inTerminal (previous.get "status") then return withSequence previous sequence
  let result := withSequence (previous.merge facts) sequence
  let result := if previous.get "admitted" = .bool true then result.set "admitted" (.bool true)
    else result
  let ended ← inTerminal (result.get "status")
  let result := if ended then result.set "pending" (.bool false) else result
  return if (facts.get "status").truthy ∧ facts.get "status" ≠ .str "unknown" then
    ((result.erase "reason").erase "error_type").erase "last_confirmed"
  else result

/-- `_initial`. -/
def initialReceipt (c : Command) : Json :=
  let result := Json.obj
    [("status", .str "unknown"), ("reason", .str "original_dispatch_not_confirmed"),
      ("state_sequence", .int 0)]
  let result := if c.observed then result.set "pending" (.bool true) else result
  ["session_id", "execution_id", "run_id"].foldl (fun result key =>
    if c.fields.get key ≠ .null then result.set key (c.fields.get key) else result) result

/-- `_response_state`. -/
def responseState : Response → Json
  | .error e => .obj [("status", .str "failed"), ("admitted", .bool false), ("error", e)]
  | .result r => r

def factKeys : List String :=
  ["status", "pending", "admitted", "reason", "error_type", "error", "last_confirmed"]

/-- `_event_facts`. -/
def eventFacts (event : AgentEvent) : Json :=
  let payload := if event.type = some "terminal_event" then event.result else event.payload
  let facts := Json.obj (factKeys.filterMap fun key => (payload.get? key).map (key, ·))
  let facts := if event.sessionId ≠ .null then facts.set "session_id" event.sessionId else facts
  let facts :=
    if event.executionId ≠ .null then facts.set "execution_id" event.executionId else facts
  if event.kind = "completed" then
    let facts := ((facts.merge payload).set "pending" (.bool false)).set "admitted" (.bool true)
    if event.type = some "terminal_event" then facts.set "completion" payload else facts
  else facts

/-! The database. -/

structure OperationRow where
  command : Command
  observing : Bool
  receipt : Json
deriving DecidableEq, Repr

/-- An event that waits for its acknowledgement, with the state it was projected to. -/
structure EventRow where
  sequence : Nat
  event : AgentEvent
  operationState : Option Json
deriving DecidableEq, Repr

structure Journal where
  operations : Table fun row : OperationRow => row.command.id
  events : Table fun row : EventRow => row.event.eventId
  /-- The greatest sequence that `AUTOINCREMENT` has given. -/
  lastSequence : Nat

namespace Journal

def empty : Journal := ⟨.empty, .empty, 0⟩

/-- `operation`. -/
def operation (j : Journal) (key : String) : Json :=
  match j.operations.get? key with
  | some row => row.receipt
  | none => .obj [("status", .str "not_found")]

def observations (j : Journal) : List (Command × Json) :=
  (j.operations.rows.filter (·.observing)).map fun row => (row.command, row.receipt)

/-- `UPDATE operations SET receipt=?, observing=? WHERE id=?`. -/
def write (j : Journal) (key : String) (receipt : Json) (observing : Bool) : Journal :=
  { j with
    operations := j.operations.update (fun row => decide (row.command.id = key)) fun row =>
      { row with receipt := receipt, observing := observing } }

/-- `_next_sequence`: a row inserted and deleted again. -/
def nextSequence (j : Journal) (key : String) : Except JournalError (Nat × Journal) := do
  require (j.events.get? ("response:" ++ key) = none) .duplicate
  return (j.lastSequence + 1, { j with lastSequence := j.lastSequence + 1 })

def begin (digest : Json → Option String) (j : Journal) (command : Command) :
    Except JournalError Journal := do
  let command ← originalCommand digest command
  match j.operations.get? command.id with
  | some row =>
    require (row.command.action = command.action ∧
      row.command.fields.sortKeys = command.fields.sortKeys) .reused
    return j
  | none =>
    let row : OperationRow := ⟨command, command.observed, initialReceipt command⟩
    return { j with operations := j.operations.insert row }

/-- `_detach`. -/
def detach (j : Journal) (key : String) (sequence : Nat) : Except JournalError Journal := do
  let state ← foldReceipt (j.operation key)
    (.obj [("status", .str "detached"), ("pending", .bool false), ("detached", .bool true)])
    sequence
  return j.write key (state.set "detached" (.bool true)) false

/-- The own receipt after a response: facts that were projected before it stay. -/
def responded (state result : Json) (sequence : Nat) : Except JournalError Json :=
  if (state.getD "state_sequence" (.int 0)).truthy ∧
      state.get "reason" ≠ .str "original_dispatch_not_confirmed" then
    return withSequence (result.merge state) sequence
  else foldReceipt state result sequence

/-- The receipt that a detach or cancel response writes for its original operation. -/
def closeOriginal (j : Journal) (command : Command) (result : Json) (sequence : Nat) :
    Except JournalError Journal := do
  if command.action = "detach" ∧ result.get "admitted" = .bool true ∧
      result.get "detached" = .bool true then
    let args ← expect (command.fields.get? "arguments") (.missing "arguments")
    match args.get? "operation_id" with
    | none => throw (.missing "operation_id")
    | some (.str original) => j.detach original sequence
    | some _ => return j
  else if command.action = "cancel" ∧ result.get "pending" = .bool false then
    if ← inTerminal (result.get "status") then
      match (command.fields.getD "arguments" (.obj [])).get "operation_id" with
      | .str original =>
        let state ← foldReceipt (j.operation original) result sequence
        return j.write original state false
      | _ => return j
    else return j
  else return j

def complete (j : Journal) (key : String) (response : Response) : Except JournalError Journal := do
  let row ← expect (j.operations.get? key) .missingOperation
  let result := responseState response
  let (sequence, j) ← j.nextSequence key
  let state ← responded row.receipt result sequence
  let state := if row.command.sessionScope then state.erase "execution_id" else state
  let observing ← row.command.observing (state.get "status")
  (j.write key state observing).closeOriginal row.command result sequence

def annotate (j : Journal) (key : String) (facts : Json) : Except JournalError Journal := do
  let state := j.operation key
  require (state.get "status" ≠ .str "not_found") .notRecorded
  let (sequence, j) ← j.nextSequence key
  return { j with
    operations := j.operations.update (fun row => decide (row.command.id = key)) fun row =>
      { row with receipt := withSequence (state.merge facts) sequence } }

/-- `_project_event`, with the state it gives the event. -/
def projectEvent (j : Journal) (event : AgentEvent) (sequence : Nat) :
    Except JournalError (Option Json × Journal) := do
  match event.operationId with
  | none => return (none, j)
  | some key =>
    match j.operations.get? key with
    | none => return (none, j)
    | some row =>
      let facts := eventFacts event
      let facts := if row.command.sessionScope then facts.erase "execution_id" else facts
      let state ← foldReceipt row.receipt facts sequence
      let observing ← row.command.observing (state.get "status")
      return (some state, j.write key state observing)

/-- The event comes after a detach, or from a snapshot that is no longer current. -/
def stale (j : Journal) (event : AgentEvent) : Except JournalError Bool :=
  match event.operationId with
  | none | some "" => return false
  | some key =>
    let current := j.operation key
    if (current.get "detached").truthy then return true
    else match event.snapshotSequence with
      | none => return false
      | some snapshot =>
        if Json.int snapshot = current.getD "state_sequence" (.int 0) then return false
        else if event.kind = "completed" then
          return !(← inTerminal (event.payload.get "status"))
        else return true

def append (j : Journal) (event : AgentEvent) : Except JournalError Journal := do
  if ← j.stale event then return j
  let event := { event with snapshotSequence := none }
  -- `INSERT OR IGNORE` takes a sequence from `AUTOINCREMENT` even where it inserts nothing
  let sequence := j.lastSequence + 1
  let j := { j with lastSequence := sequence }
  if (j.events.get? event.eventId).isSome then return j
  let (state, j) ← j.projectEvent event sequence
  let row : EventRow := ⟨sequence, event, state⟩
  return { j with events := j.events.insert row }

def ack (j : Journal) (key : String) : Journal :=
  { j with events := j.events.delete fun row => decide (row.event.eventId = key) }

end Journal

/-! Runs. -/

inductive JournalAction
  | begin (command : Command)
  | append (event : AgentEvent)
  | complete (key : String) (response : Response)
  | annotate (key : String) (facts : Json)
  | ack (key : String)
deriving DecidableEq, Repr

namespace Journal

def act (digest : Json → Option String) (j : Journal) : JournalAction → Except JournalError Journal
  | .begin command => j.begin digest command
  | .append event => j.append event
  | .complete key response => j.complete key response
  | .annotate key facts => j.annotate key facts
  | .ack key => .ok (j.ack key)

/-- One call; an exception rolls its transaction back. -/
def call (digest : Json → Option String) (j : Journal) (a : JournalAction) : Journal :=
  (j.act digest a).toOption.getD j

end Journal

end Yuki.Connector

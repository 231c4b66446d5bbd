import Yuki.Lib.Attempt
import Yuki.Lib.Table
import Yuki.Lib.JsonOrder
import Yuki.Lib.Sql
import Mathlib.Algebra.Order.Ring.Rat

/-! The rows of the runtime database. Columns no operation reads are left out. -/

namespace Yuki

/-- Seconds since the epoch. -/
abbrev Time := ℚ

/-- JSON as it is stored: the value with its members in text order, and whether
SQLite wrote it without blanks. Two texts are equal exactly when both agree. -/
structure JsonText where
  value : Json
  compact : Bool
deriving DecidableEq

/-- `encode_json`: members sorted at every depth. -/
def encodeJson (v : Json) : JsonText :=
  ⟨v.sortKeys, false⟩

/-- `json_set` on stored text, written back by SQLite. -/
def JsonText.jsonSet (t : JsonText) (path : List String) (v : Json) : JsonText :=
  ⟨Sql.jsonSet t.value path v, true⟩

inductive WorkState
  | queued | running | waitingExternal | waitingUser | suspended | completed | failed | cancelled
deriving DecidableEq, Repr

/-- `TERMINAL`. -/
def WorkState.terminal : WorkState → Bool
  | .completed | .failed | .cancelled => true
  | _ => false

def WorkState.name : WorkState → String
  | .queued => "queued"
  | .running => "running"
  | .waitingExternal => "waiting_external"
  | .waitingUser => "waiting_user"
  | .suspended => "suspended"
  | .completed => "completed"
  | .failed => "failed"
  | .cancelled => "cancelled"

/-- `canonical_conversations`. -/
structure ConversationRow where
  id : String
  generation : Int
  promptSourceRevision : Int := 0
  spaceId : Option String := none
  personId : Option String := none

/-- `canonical_persons`. -/
structure PersonRow where
  id : String
  mergedIntoPersonId : Option String

/-- `runtime_work`. -/
structure WorkRow where
  id : String
  parentWorkId : Option String
  conversationId : String
  generation : Int
  sourceKey : String
  sourceJson : Json
  goal : String
  revision : Int := 1
  state : WorkState
  reason : Option String := none
  modelRequests : Int := 0
  toolCalls : Int := 0
  sentMessages : Int := 0
  checkpointJson : Json := .obj []
  created : Time
  updated : Time

/-- `runtime_work_scopes`. -/
structure ScopeRow where
  conversationId : String
  generation : Int
  cancelEpoch : Int := 0
  fence : Int := 0
  owner : Option String
  leaseUntil : Time
deriving DecidableEq

/-- `runtime_subagents`. -/
structure ChildRow where
  workId : String
  sourceKey : String
  briefJson : Json
  resultJson : Json := .obj []
  owner : Option String := none
  fence : Int := 0
  leaseUntil : Time := 0
  cancelEpoch : Int := 0
  notifiedRevision : Int := 0
  archivedAt : Option Time := none

inductive InputState
  | pending | staged | consumed | cancelled
deriving DecidableEq, Repr

inductive EventKind
  | conversation | pluginEvent
deriving DecidableEq, Repr

/-- What an owned run was last seen in, as `_run_states` projects it. -/
structure RunState where
  status : Json
  operationStatus : Option Json := none
  nativeStatus : Option Json := none
  nativePending : Option Json := none
deriving DecidableEq

/-- The evidence stored under `matched` when a condition is met. -/
inductive Match
  | event (eventId : Int) (kind : EventKind) (at_ : Time) (text : Option String)
  | timeDue (due observedAt : Time)
  | ownedRun (runId : String) (state : RunState)
deriving DecidableEq

inductive ConditionKind
  | timeDue (due : Time)
  | conversation (afterEventId : Int)
  | pluginEvent (pluginId eventType : String) (externalSource : Option String) (afterEventId : Int)
  | ownedRun (runId : String)
deriving DecidableEq

structure Condition where
  kind : ConditionKind
  matched : Option Match
deriving DecidableEq

inductive WaitMode
  | any | all
deriving DecidableEq, Repr

inductive WaitStatus
  | active | delivered | cancelled | expired | invalidated
deriving DecidableEq, Repr

/-- Why `_deliver` ends a wait. -/
inductive SignalReason
  | signal | deadline | requiresAction
deriving DecidableEq, Repr

/-- The body of a mailbox row: a document, or the signal of a wait kept in its parts. -/
inductive Payload
  | doc (j : Json)
  | workSignal (waitId : String) (reason : SignalReason) (conditions : List Condition) (at_ : Time)
deriving DecidableEq

/-- The document an SQL condition on `payload_json` sees; no condition reads a signal's text. -/
def Payload.json : Payload → Json
  | .doc j => j
  | .workSignal .. => .obj [("signal", .bool true)]

/-- `runtime_work_inputs`; rows stand in ascending `id`. -/
structure InputRow where
  id : Nat
  conversationId : String
  generation : Int
  sourceKey : String
  eventId : Option Int := none
  workId : Option String
  kind : String
  state : InputState := .pending
  attemptId : Option String := none
  ready : Bool := true
  prepareOwner : Option String := none
  payload : Payload
  created : Time

inductive EffectState
  | prepared | accepted | failed | unknown
deriving DecidableEq, Repr

/-- `runtime_work_effects`. -/
structure EffectRow where
  effectKey : String
  workId : String
  kind : String
  state : EffectState
  receiptJson : JsonText
  created : Time
  updated : Time

/-- `runtime_work_waits`; the conditions are kept decoded. -/
structure WaitRow where
  id : String
  workId : String
  conversationId : String
  generation : Int
  principalKind : String
  principalId : String
  callKey : String
  requestJson : Json
  mode : WaitMode
  conditions : List Condition
  status : WaitStatus
  deadline : Option Time
  created : Time
  updated : Time
  delivered : Option Time := none

theorem WaitRow.id_withStatus (status : WaitStatus) (now : Time) (w : WaitRow) :
    ({ w with status := status, updated := now } : WaitRow).id = w.id := rfl

/-- `runtime_work_budgets`. -/
structure BudgetRow where
  rootId : String
  models : Int
  tools : Int
  modelLimit : Option Int := none
  toolLimit : Option Int := none
deriving DecidableEq

/-- `runtime_work_recovery`. -/
structure RecoveryRow where
  workId : String
  activationId : String
  exitReason : String
  stage : String
  failureJson : Json := .obj []
  attempts : Int := 0
  notBefore : Time := 0
  updated : Time

/-- `chat_events`. -/
structure EventRow where
  id : Int
  canonicalConversationId : Option String
  suppressionStatus : String
  direction : String
  eventKind : String
  authorPersonId : Option String := none
  replyToEventId : Option Int := none
  ingressPlatform : Option String := none
  sourcePluginId : Option String := none
  externalResumeWait : Bool := false
  externalEventType : Option String := none
  externalSource : Option String := none

/-- `sandbox_task_runs`. -/
structure SandboxTaskRunRow where
  requestId : String
  runId : Option String
  status : String
  sourceJson : Json
  completionJson : Option Json
  progressJson : Json
  sourceConversationId : String

/-- `sandbox_task_continuations`. -/
structure ContinuationRow where
  requestId : String
  state : String
  reason : String

/-- `initiative_runs`. -/
structure InitiativeRunRow where
  id : String
  state : String
  conversationId : String
  generation : Int
  presenceId : Json
  spaceId : Json

/-- `automations` joined to one of its runs. -/
structure AutomationRunRow where
  id : String
  automationId : String
  creatorKind : String
  status : String

/-- `social_operations`: a message already sent for a source turn. -/
structure SocialOperationRow where
  id : String
  sourceConversationId : String
  sourceTurnId : String
  eventId : Option Int
  status : String

/-- `plugin_background_target_grants` joined to their installation. -/
structure PluginGrantRow where
  id : String
  pluginId : String
  enabled : Bool
  installationEnabled : Bool
  targetSpaceId : Option String
  targetPersonId : Option String

/-- `runtime_protocol_objects`. -/
structure ObjectRow where
  sha256 : String
  byteSize : Int
  preparedAt : Time
  deleting : Bool
deriving DecidableEq

/-- `runtime_protocol_refs`. -/
structure RefRow where
  workId : String
  sha256 : String
deriving DecidableEq

def RefRow.key (r : RefRow) : String × String :=
  (r.workId, r.sha256)

/-- One committed state of the database. -/
structure Db where
  conversations : Table ConversationRow.id := .empty
  persons : Table PersonRow.id := .empty
  works : Table WorkRow.id := .empty
  scopes : Table ScopeRow.conversationId := .empty
  children : Table ChildRow.workId := .empty
  inputs : Table InputRow.id := .empty
  effects : Table EffectRow.effectKey := .empty
  waits : Table WaitRow.id := .empty
  budgets : Table BudgetRow.rootId := .empty
  recovery : Table RecoveryRow.workId := .empty
  /-- Works that have a `runtime_work_journal` row. -/
  journal : List String := []
  events : Table EventRow.id := .empty
  taskRuns : Table SandboxTaskRunRow.requestId := .empty
  continuations : Table ContinuationRow.requestId := .empty
  initiativeRuns : Table InitiativeRunRow.id := .empty
  automationRuns : Table AutomationRunRow.id := .empty
  socialOperations : Table SocialOperationRow.id := .empty
  pluginGrants : Table PluginGrantRow.id := .empty
  objects : Table ObjectRow.sha256 := .empty
  refs : Table RefRow.key := .empty
  /-- `execution_trace_state.privacy_generation`. -/
  privacyGeneration : Int := 0
  /-- `database.subagents_enabled`. -/
  subagentsEnabled : Bool := true

/-- The exceptions an operation raises. A writer is a function to `Except Err (Db × α)`:
what it commits and returns, or the exception that rolls it back. -/
inductive Err
  | workConflict (code : String)
  | valueError (code : String)
  | workBudgetExceeded (code : String)
  | workManagementError (code : String)
  | permissionError (code : String)
  /-- A row the code requires is missing, or a decoded value has an unusable type. -/
  | runtime (detail : String)
deriving DecidableEq, Repr

namespace Db

def conversationGeneration (db : Db) (id : String) : Option Int :=
  (db.conversations.get? id).map ConversationRow.generation

/-- The identity `AUTOINCREMENT` gives to the next mailbox row. -/
def nextInput (db : Db) : Nat :=
  (db.inputs.rows.map InputRow.id).foldr max 0 + 1

/-- `INSERT INTO runtime_work_inputs … ON CONFLICT (source_key) DO NOTHING RETURNING id`. -/
def insertInput (db : Db) (r : InputRow) : Db × Option Nat :=
  if db.inputs.rows.any fun i => i.sourceKey == r.sourceKey then (db, none)
  else ({ db with inputs := db.inputs.insert { r with id := db.nextInput } }, some db.nextInput)

def inputBySource (db : Db) (sourceKey : String) : Option InputRow :=
  db.inputs.rows.find? fun i => i.sourceKey == sourceKey

def workBySource (db : Db) (sourceKey : String) : Option WorkRow :=
  db.works.rows.find? fun w => w.sourceKey == sourceKey

/-- Whether a Work has an active wait. -/
def hasActiveWait (db : Db) (workId : String) : Bool :=
  db.waits.rows.any fun w => w.workId == workId && w.status == .active

theorem id_lt_nextInput {db : Db} {i : InputRow} (h : i ∈ db.inputs.rows) : i.id < db.nextInput := by
  unfold nextInput
  generalize db.inputs.rows = rows at h
  induction rows with
  | nil => simp at h
  | cons j rows ih =>
    simp only [List.map_cons, List.foldr_cons]
    rcases List.mem_cons.mp h with rfl | h
    · omega
    · have := ih h
      omega

theorem nextInput_fresh (db : Db) : db.nextInput ∉ db.inputs.rows.map InputRow.id := by
  intro h
  obtain ⟨i, hi, he⟩ := List.mem_map.mp h
  have := id_lt_nextInput hi
  omega

/-- The mailbox after an insertion: unchanged, or with the new row at its end. -/
theorem insertInput_rows (db : Db) (r : InputRow) :
    ((db.insertInput r).1.inputs.rows = db.inputs.rows ∧
        ∃ i ∈ db.inputs.rows, i.sourceKey = r.sourceKey) ∨
      ((db.insertInput r).1.inputs.rows = db.inputs.rows ++ [{ r with id := db.nextInput }] ∧
        ∀ i ∈ db.inputs.rows, i.sourceKey ≠ r.sourceKey) := by
  unfold insertInput
  split
  · rename_i h
    left
    simpa using h
  · rename_i h
    right
    constructor
    · simp only [Table.insert]
      rw [dif_neg (nextInput_fresh db)]
    · simpa using h

end Db

end Yuki

import Yuki.Runtime.Admission

/-! The mailbox of a Work: admission, preparation and discard of one input, replies
of a user, and the completions of its external runs. -/

namespace Yuki

open Json

/-- The `kind` inside the text of a child's message, if that text is a document. -/
def childKind (payload : Json) : Sql.Value :=
  match Sql.jsonExtract payload ["text"] with
  | .text s => ((loads s).map fun j => Sql.jsonExtract j ["kind"]).getD .null
  | _ => .null

/-- `_business_input_clause`: instructions and questions, not progress notices or signals. -/
def businessInputClause (i : InputRow) : Sql.Truth :=
  Sql.Truth.and
    (Sql.Truth.or (some (i.kind == "message"))
      (Sql.Truth.and (some (i.kind == "subagent"))
        (Sql.Truth.or
          ((Sql.jsonExtract i.payload.json ["child_id"]).eq ((i.workId.map .text).getD .null))
          ((childKind i.payload.json).eq (.text "subagent_question")))))
    (((Sql.jsonExtract i.payload.json ["signal"]).coalesce (.int 0)).eq (.int 0))

namespace InputRow

def business (i : InputRow) : Bool :=
  (businessInputClause i).holds

/-- `state IN ('pending', 'staged')`. -/
def live (i : InputRow) : Bool :=
  i.state == .pending || i.state == .staged

/-- A pending row whose body is still being prepared. -/
def preparing (i : InputRow) : Bool :=
  i.state == .pending && !i.ready

end InputRow

namespace Db

/-- The state a Work is in. -/
def stateOf (db : Db) (id : String) : Option WorkState :=
  (db.works.get? id).map WorkRow.state

theorem stateOf_eq_some {db : Db} {id : String} {s : WorkState} :
    db.stateOf id = some s ↔ ∃ w, db.works.get? id = some w ∧ w.state = s := by
  simp [stateOf]

/-- Ends the active wait of a Work. -/
def cancelActiveWaits (db : Db) (now : Time) (workId : String) : Db :=
  { db with
    waits := db.waits.update (fun w => w.workId == workId && w.status == .active)
      (fun w => { w with status := .cancelled, updated := now })
      (WaitRow.id_withStatus .cancelled now) }

/-- Queues the selected Works that wait for something external without an active wait. -/
def wakeWaiting (db : Db) (now : Time) (p : WorkRow → Bool) : Db :=
  { db with
    works := db.works.update
      (fun w => p w && w.state == .waitingExternal && !db.hasActiveWait w.id) fun w =>
        { w with state := .queued, revision := w.revision + 1, updated := now } }

@[simp] theorem insertInput_works (db : Db) (r : InputRow) : (db.insertInput r).1.works = db.works := by
  unfold insertInput
  split <;> rfl

@[simp] theorem insertInput_waits (db : Db) (r : InputRow) : (db.insertInput r).1.waits = db.waits := by
  unfold insertInput
  split <;> rfl

@[simp] theorem insertInput_children (db : Db) (r : InputRow) :
    (db.insertInput r).1.children = db.children := by
  unfold insertInput
  split <;> rfl

@[simp] theorem insertInput_conversations (db : Db) (r : InputRow) :
    (db.insertInput r).1.conversations = db.conversations := by
  unfold insertInput
  split <;> rfl

end Db

/-- The arguments of `enqueue`; a prepared payload is the text encoded ahead. -/
structure Enqueued where
  conversationId : String
  generation : Int
  sourceKey : String
  kind : String
  eventId : Option Int := none
  workId : Option String := none
  ready : Bool := true
  resume : Option (WorkLease × Json) := none
  payload : Option Json := none
  preparedPayload : Option Json := none

namespace Enqueued

def serialized (a : Enqueued) : Json :=
  match a.preparedPayload, a.resume with
  | some prepared, _ => prepared
  | none, some (_, payload) => payload.sortKeys
  | none, none => (a.payload.getD (.obj [])).sortKeys

/-- `matches`: whether the stored row is the same input. -/
def matchesRow (a : Enqueued) (row : InputRow) : Bool :=
  ((a.payload.isNone && a.preparedPayload.isNone) || row.payload == .doc a.serialized) &&
    row.conversationId == a.conversationId && row.generation == a.generation &&
    row.kind == a.kind && row.eventId == a.eventId && row.workId == a.workId

def row (a : Enqueued) (now : Time) (processId : String) : InputRow where
  id := 0
  conversationId := a.conversationId
  generation := a.generation
  sourceKey := a.sourceKey
  eventId := a.eventId
  workId := a.workId
  kind := a.kind
  ready := a.ready
  prepareOwner := if a.ready then none else some processId
  payload := .doc a.serialized
  created := now

end Enqueued

namespace WorkRepository

/-- A resume is made under the conversation lease of the input itself. -/
def resumeScope (db : Db) (now : Time) (a : Enqueued) : Except Err Unit :=
  match a.resume with
  | none => .ok ()
  | some (owned, _) => do
    assertLease db now owned
    require (owned.worker = none ∧ owned.conversationId = a.conversationId ∧
        owned.generation = a.generation)
      (.workConflict "work_resume_scope_mismatch")

def resumable (a : Enqueued) (w : WorkRow) : Bool :=
  a.workId == some w.id && w.conversationId == a.conversationId && w.generation == a.generation &&
    w.state != .completed && w.state != .cancelled &&
    (Sql.jsonExtract w.checkpointJson ["archived"]).isNull

/-- Queues the Work of a resuming input and ends its wait. -/
def explicitResume (db : Db) (now : Time) (a : Enqueued) : Except Err Db := do
  let workId ← expect a.workId (.workConflict "work_resume_obsolete")
  require (db.works.rows.any (resumable a) = true) (.workConflict "work_resume_obsolete")
  return { db with
      works := db.works.update (resumable a) fun w =>
        { w with state := .queued, reason := some "explicit_resume",
                 checkpointJson := Sql.jsonRemove w.checkpointJson ["accepted_control"],
                 revision := w.revision + 1, updated := now } }.cancelActiveWaits now workId

/-- What `enqueue` does once its row stands in the mailbox. -/
def admitInput (db : Db) (now : Time) (a : Enqueued) (row : InputRow) : Except Err (Db × Nat) := do
  require (a.matchesRow row = true) (.workConflict "work_input_conflict")
  require (a.resume = none ∨ row.payload = .doc a.serialized) (.workConflict "work_input_conflict")
  let resumed ← onlyIf (a.resume.isSome && row.state == .pending) db (explicitResume db now a)
  return (resumed, row.id)

/-- `enqueue`; `seen` is the reader's snapshot, absent when a session is passed in. -/
def enqueue (seen : Option Db) (db : Db) (now : Time) (processId : String) (a : Enqueued) :
    Except Err (Db × Nat) := do
  require (a.sourceKey ≠ "" ∧ a.kind ∈ ["message", "completion", "control"])
    (.valueError "invalid_work_input")
  let known := (seen.filter fun _ => a.resume.isNone).bind (·.inputBySource a.sourceKey)
  match known with
  | some existing => do
    require (a.matchesRow existing = true) (.workConflict "work_input_conflict")
    return (db, existing.id)
  | none => do
    resumeScope db now a
    let inserted := (db.insertInput (a.row now processId)).1
    let row ← expect (inserted.inputBySource a.sourceKey) (.runtime "NoResultFound")
    admitInput inserted now a row

/-- The owner of an input still runs in the generation the input was sent to. -/
def liveOwner (db : Db) (i : InputRow) : Bool :=
  match i.workId.bind db.works.get? with
  | none => false
  | some w =>
    w.generation == i.generation && w.conversationId == i.conversationId && !w.state.terminal &&
      db.conversationGeneration w.conversationId == some i.generation

/-- The row `prepare_input` may publish. -/
def preparable (db : Db) (identity : Nat) (i : InputRow) : Bool :=
  i.id == identity && i.preparing && (i.workId.isNone || liveOwner db i)

/-- Whether a retry finds its input already ready. -/
def acknowledged (db : Db) (identity : Nat) : Bool :=
  (db.inputs.get? identity).any fun i => i.ready && i.state != .cancelled

/-- The wakeup of a Work by its prepared input. -/
def wakePrepared (db : Db) (now : Time) (workId : Option String) : Db :=
  { db with
    works := db.works.update
      (fun w => workId == some w.id && (w.state == .waitingExternal || w.state == .waitingUser))
      fun w => { w with state := .queued, reason := some "input_prepared", updated := now,
                        revision := w.revision + 1 } }

/-- `prepare_input`. `seen` is the reader's snapshot, absent with a publication hook; `hook`
is what that hook raises, if anything; `media` tells whether the payload carries any. -/
def prepareInput (seen : Option Db) (db : Db) (now : Time) (identity : Nat) (payload : Json)
    (media : Bool) (hook : Except Err Unit) : Except Err (Db × Bool) :=
  if seen.any (acknowledged · identity) then .ok (db, true)
  else match (db.inputs.get? identity).filter (preparable db identity) with
    | none => do
      onlyIf (acknowledged db identity) () hook
      return (db, acknowledged db identity)
    | some changed => do
      hook
      require (media = false ∨ changed.workId ≠ none)
        (.workConflict "work_input_media_owner_missing")
      let ready := db.inputs.update (fun i => i.id = identity) fun i =>
        { i with payload := .doc payload.sortKeys, ready := true }
      return (wakePrepared { db with inputs := ready } now changed.workId, true)

/-- `discard_input`. -/
def discardInput (db : Db) (now : Time) (identity : Nat) : Db :=
  match (db.inputs.get? identity).filter InputRow.preparing with
  | none => db
  | some changed =>
    { db with
      inputs := db.inputs.update (fun i => i.id = identity) fun i =>
        { i with state := .cancelled, payload := .doc (.obj []) }
      works := db.works.update
        (fun w => changed.workId == some w.id && w.state == .waitingExternal &&
          w.reason == some "work_input_preparing") fun w =>
          { w with state := .queued, reason := some "input_preparation_cleared",
                   revision := w.revision + 1, updated := now } }

/-- `stage`: an attempt takes pending inputs of its lease's conversation. -/
def stage (db : Db) (now : Time) (lease : WorkLease) (ids : List Nat) (attemptId : String) :
    Except Err Db := do
  require (ids ≠ [] ∧ ids.Nodup ∧ ids.length ≤ 32) (.valueError "invalid_work_input_batch")
  assertLease db now lease
  let taken (i : InputRow) : Bool :=
    ids.contains i.id && i.conversationId == lease.conversationId &&
      i.generation == lease.generation && i.state == .pending
  require (db.inputs.rows.countP taken = ids.length) (.workConflict "work_input_already_staged")
  return { db with
    inputs := db.inputs.update taken fun i =>
      { i with state := .staged, attemptId := some attemptId } }

/-- `consume`. -/
def consume (db : Db) (now : Time) (lease : WorkLease) (attemptId : String) : Except Err Db := do
  assertLease db now lease
  return { db with
    inputs := db.inputs.update
      (fun i => i.conversationId == lease.conversationId && i.generation == lease.generation &&
        i.attemptId == some attemptId && i.state == .staged) fun i =>
      { i with state := .consumed } }

end WorkRepository

namespace SandboxCompletion

/-- The members a completion keeps of its receipt. -/
def kept : List String :=
  ["operation_status", "native_status", "native_pending", "operation_id", "instance_id",
    "session_id", "execution_id"]

/-- The text handed to the parent. -/
def text (task : SandboxTaskRunRow) (completion : Json) : Json :=
  .obj ([("kind", .str (if completion.get "kind" == .str "external_agent"
        then "external_agent_completion" else "sandbox_completion")),
      ("request_id", .str task.requestId),
      ("run_id", (task.runId.map .str).getD .null),
      ("status", completion.getD "operation_status" (completion.get "status"))] ++
    kept.filterMap (fun name => (completion.get? name).map fun v => (name, v)) ++
    [("pending", .bool false), ("exit_code", completion.get "exit_code"),
      ("detail", .str "通过原工具查询原 run_id 或 request_id 的回执与产物，不能重跑原操作。")])

def input (task : SandboxTaskRunRow) (completion : Json) (parent : WorkRow) (now : Time) :
    InputRow where
  id := 0
  conversationId := parent.conversationId
  generation := parent.generation
  sourceKey := "completion:" ++ task.requestId
  workId := some parent.id
  kind := "completion"
  payload := .doc (.obj [("text", .str (text task completion).dumps)])
  created := now

end SandboxCompletion

namespace Db

/-- The receipt of a finished run leaves the queue. -/
def retire (db : Db) (requestId state reason : String) : Db :=
  { db with
    continuations := db.continuations.update (fun c => c.requestId = requestId) fun c =>
      { c with state := state, reason := reason } }

end Db

namespace WorkRepository

/-- `task.… != prepared.…` over the columns the completion was prepared from. -/
def samePrepared (task prepared : SandboxTaskRunRow) : Bool :=
  task.runId == prepared.runId && task.sourceJson == prepared.sourceJson &&
    task.completionJson == prepared.completionJson &&
    task.sourceConversationId == prepared.sourceConversationId

/-- The handover of a prepared completion to its parent. -/
def handCompletion (db : Db) (now : Time) (task : SandboxTaskRunRow) (parent : WorkRow) :
    Except Err Db := do
  require (task.sourceConversationId = parent.conversationId ∧
      (task.sourceJson.get "generation").pyEq (.int parent.generation) = true)
    (.workConflict "work_child_source_mismatch")
  let completion := task.completionJson.getD (.obj [])
  let inserted := (db.insertInput (SandboxCompletion.input task completion parent now)).1
  return (inserted.wakeWaiting now fun w => w.id == parent.id).retire task.requestId "observed"
    "forwarded_to_parent_work"

/-- The Work a completion's source names. -/
def completionParent (db : Db) (task : SandboxTaskRunRow) : Option WorkRow :=
  match task.sourceJson.get "work_id" with
  | .str id => db.works.get? id
  | _ => none

/-- `route_child_completion`; `seen` is the snapshot the completion was prepared from. -/
def routeChildCompletion (seen db : Db) (now : Time) (requestId : String) : Except Err Db :=
  match seen.taskRuns.get? requestId, db.taskRuns.get? requestId,
      (db.continuations.get? requestId).filter fun c => c.state == "ready" with
  | some prepared, some task, some _ =>
    if samePrepared task prepared = false then .ok db
    else if (task.sourceJson.get "work_id").truthy = false then
      .ok (db.retire requestId "blocked" "legacy_continuation_retired")
    else match (completionParent db task).filter fun w => !w.state.terminal with
      | none => .ok (db.retire requestId "blocked" "work_terminal_or_deleted")
      | some parent => handCompletion db now task parent
  | _, _, _ => .ok db

end WorkRepository

end Yuki

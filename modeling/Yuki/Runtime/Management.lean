import Yuki.Runtime.Settlement

/-! Management of an existing Work tree: cancellation, failure and explicit resume. -/

namespace Yuki

/-- `UUID(identity)` reads back as `identity` and has version 4. -/
def workIdShaped (identity : String) : Bool :=
  let cs := identity.toList
  cs.length == 36 &&
    (cs.zipIdx.all fun c =>
      if c.2 ∈ [8, 13, 18, 23] then c.1 == '-'
      else if c.2 = 14 then c.1 == '4'
      else if c.2 = 19 then ['8', '9', 'a', 'b'].contains c.1
      else c.1.isDigit || ('a'.toNat ≤ c.1.toNat && c.1.toNat ≤ 'f'.toNat))

inductive ManagementAction
  | cancel | fail | resume
deriving DecidableEq, Repr

/-- A worker may be queued again: unarchived, and nobody runs it. -/
def workerResumable (now : Time) (c : ChildRow) : Bool :=
  c.archivedAt.isNone && !(c.owner.isSome && decide (now < c.leaseUntil))

/-- The schedulers and origins whose Works continue by being queued. -/
def supportedSource (source : Json) : Bool :=
  ["plugin_invocation", "plugin_background", "automation"].any
      (isText (Sql.jsonExtract source ["owner"])) ||
    ["user_message", "autonomous_group", "self_initiative"].any
      (isText (Sql.jsonExtract source ["origin"]))

/-- The initiative run a Work of the program's own began in. -/
def originalRun (db : Db) (source : Json) : Bool :=
  db.initiativeRuns.rows.any fun r => isText (Sql.jsonExtract source ["initiative_run_id"]) r.id

/-- `resume_blocker`. -/
def resumeBlocker (db : Db) (now : Time) (row : WorkRow) : Option String :=
  if row.state ∉ [.suspended, .waitingUser, .waitingExternal, .failed] then
    some "precondition_failed"
  else if db.conversationGeneration row.conversationId ≠ some row.generation then
    some "precondition_failed"
  else
    let origin :=
      match db.children.get? row.id with
      | some child => if workerResumable now child then none else some "precondition_failed"
      | none =>
        if supportedSource row.sourceJson = false then some "operation_unavailable"
        else if isText (Sql.jsonExtract row.sourceJson ["origin"]) "self_initiative" &&
            !originalRun db row.sourceJson then some "precondition_failed"
        else none
    origin.or
      (if row.modelRequests ≠ 0 ∧ row.id ∉ db.journal then some "state_mismatch" else none)

/-- The evidence of a stop, for the parent's mailbox. -/
def stopInput (identity : String) (revision : Int) (state : WorkState) (reason : String)
    (parent : WorkRow) (now : Time) : InputRow where
  id := 0
  conversationId := parent.conversationId
  generation := parent.generation
  sourceKey := "worker-result:" ++ identity ++ ":" ++ toString revision
  workId := some parent.id
  kind := "subagent"
  payload := .doc (.obj [("text", .str (Json.sortKeys (.obj [("child_id", .str identity),
    ("state", .str state.name), ("reason", .str reason)])).dumps)])
  created := now

/-- The stopped Work reports to its parent, which is queued if it only waited. -/
def reportStop (db : Db) (now : Time) (identity : String) (revision : Int) (state : WorkState)
    (reason : String) (parentId : Option String) : Db :=
  match parentId.bind db.works.get? with
  | none => db
  | some parent =>
    (db.insertInput (stopInput identity revision state reason parent now)).1.wakeWaiting now
      fun w => w.id == parent.id

/-- `cancel` and `fail` of `manage_work`. -/
def stopWork (db : Db) (now : Time) (row : WorkRow) (state : WorkState) (reason : String) : Db :=
  let stopped := stopOwnedExecution db now row.id (some reason)
  let published := { stopped with
    works := stopped.works.update (fun w => w.id = row.id) fun w =>
      { w with state := state, reason := some reason,
               checkpointJson := Sql.jsonRemove w.checkpointJson ["accepted_control"],
               revision := w.revision + 1, updated := now } }
  reportStop published now row.id (row.revision + 1) state reason row.parentWorkId

/-- `resume` of `manage_work`. -/
def queueAgain (db : Db) (now : Time) (row : WorkRow) : Db :=
  let released := db.cancelActiveWaits now row.id
  { released with
    works := released.works.update (fun w => w.id = row.id) fun w =>
      { w with state := .queued, reason := some "operator_resume",
               checkpointJson := Sql.jsonRemove w.checkpointJson ["accepted_control"],
               revision := w.revision + 1, updated := now } }

/-- `manage_work`, in the caller's transaction. -/
def manageWork (db : Db) (now : Time) (identity : String) (revision : Int)
    (action : ManagementAction) (reason : Option String) : Except Err (Db × Int × WorkState) := do
  require (workIdShaped identity = true) (.workManagementError "validation_error")
  let row ← expect (db.works.get? identity) (.workManagementError "not_found")
  require (row.revision = revision) (.workManagementError "version_conflict")
  require (row.state.terminal = false ∨ (action = .resume ∧ row.state = .failed))
    (.workManagementError "precondition_failed")
  match action with
  | .cancel =>
    return (stopWork db now row .cancelled (reason.getD "operator_cancelled"), revision + 1,
      .cancelled)
  | .fail =>
    return (stopWork db now row .failed (reason.getD "agent_failed"), revision + 1, .failed)
  | .resume => do
    let blocker := resumeBlocker db now row
    require (blocker = none) (.workManagementError (blocker.getD ""))
    return (queueAgain db now row, revision + 1, .queued)

end Yuki

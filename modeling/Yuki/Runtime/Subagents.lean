import Yuki.Runtime.Management

/-! Workers: messages between a parent and its worker, explicit resume, and the
publication of results. -/

namespace Yuki

namespace SubagentRepository

/-- `related`: the worker stands below this parent. -/
def related (db : Db) (parentId identity : String) : Bool :=
  (db.children.get? identity).isSome && (db.works.get? identity).isSome &&
    db.isDescendant parentId false identity

/-- The arguments of `message`. -/
structure Message where
  parentId : String
  identity : String
  key : String
  text : Option String
  ask : Bool := false
  replyTo : Option String := none
  toParent : Bool := false

namespace Message

def sender (m : Message) : String :=
  if m.toParent then m.identity else m.parentId

def destination (m : Message) : String :=
  if m.toParent then m.parentId else m.identity

/-- Instructions to a worker and its questions are business input. -/
def businessInput (m : Message) : Bool :=
  m.ask || !m.toParent

def payload (m : Message) (text : String) : Json :=
  .obj [("child_id", .str m.identity),
    ("text", .str (Json.sortKeys (.obj [
      ("kind", .str (if m.ask then "subagent_question" else "subagent_message")),
      ("child_id", .str m.identity), ("message_id", .str m.key),
      ("sender_work_id", .str m.sender), ("target_work_id", .str m.destination),
      ("reply_to", (m.replyTo.map .str).getD .null), ("text", .str text)])).dumps)]

def input (m : Message) (lease : WorkLease) (text : String) (now : Time) : InputRow where
  id := 0
  conversationId := lease.conversationId
  generation := lease.generation
  sourceKey := m.key
  workId := some m.destination
  kind := "subagent"
  payload := .doc (m.payload text)
  created := now

/-- Whether a new message queues its target. -/
def wakes (m : Message) (target : WorkRow) (waiting : Bool) : Bool :=
  if m.toParent && m.ask then target.state == .waitingExternal || target.state == .waitingUser
  else if m.toParent then target.state == .waitingExternal && !waiting
  else target.state != .running

end Message

/-- The target of a message that was newly inserted. -/
def wakeTarget (db : Db) (now : Time) (m : Message) (target : WorkRow) : Db :=
  if m.wakes target (db.hasActiveWait m.destination) then
    let released := if m.businessInput then db.cancelActiveWaits now m.destination else db
    { released with
      works := db.works.update (fun w => w.id = m.destination) fun w =>
        { w with state := .queued, revision := w.revision + 1, updated := now,
                 checkpointJson :=
                  if m.businessInput then Sql.jsonRemove w.checkpointJson ["accepted_control"]
                  else w.checkpointJson } }
  else db

/-- `message`; `seen` is the snapshot the relation was checked on. The result tells whether
the worker now waits for its parent. -/
def message (seen db : Db) (now : Time) (lease : WorkLease) (m : Message) :
    Except Err (Db × Bool) := do
  require (m.text.any blank = false) (.valueError "invalid_subagent_message")
  require (lease.worker = none ∨ lease.worker = some m.sender) (.valueError "subagent_not_owned")
  require (related seen m.parentId m.identity = true) (.valueError "subagent_not_owned")
  WorkRepository.assertLease db now lease
  let child ← expect (db.children.get? m.identity) (.runtime "NoResultFound")
  require (child.archivedAt = none) (.valueError "subagent_archived")
  let target ← expect (db.works.get? m.destination) (.runtime "NoResultFound")
  require (target.conversationId = lease.conversationId ∧ target.generation = lease.generation)
    (.valueError "subagent_not_owned")
  require (m.toParent = true ∨ target.state ≠ .cancelled)
    (.valueError "subagent_message_target_terminal")
  let waitingParent := m.ask && m.toParent && !target.state.terminal
  match m.text with
  | none => return (db, waitingParent)
  | some text =>
    match db.insertInput (m.input lease text now) with
    | (inserted, some _) => return (wakeTarget inserted now m target, waitingParent)
    | (inserted, none) => return (inserted, waitingParent)

theorem id_resumed (now : Time) (w : WorkRow) :
    ({ w with state := .queued, reason := some "explicit_resume",
              checkpointJson := Sql.jsonRemove w.checkpointJson ["accepted_control"],
              revision := w.revision + 1, updated := now } : WorkRow).id = w.id := rfl

/-- The Work of a worker resumed without a message. -/
def queueWorker (db : Db) (now : Time) (row : WorkRow) : Db :=
  let released := db.cancelActiveWaits now row.id
  if row.state = .running then released
  else { released with
    works := db.works.update (fun w => w.id = row.id)
      (fun w => { w with state := .queued, reason := some "explicit_resume",
                         checkpointJson := Sql.jsonRemove w.checkpointJson ["accepted_control"],
                         revision := w.revision + 1, updated := now })
      (id_resumed now) }

/-- `resume`. -/
def resume (seen db : Db) (now : Time) (lease : WorkLease) (parentId identity key : String)
    (instruction : Option String) : Except Err Db :=
  match instruction.filter fun i => i ≠ "" with
  | some text => do
    let sent ← message seen db now lease
      { parentId := parentId, identity := identity, key := key, text := some text }
    return sent.1
  | none => do
    WorkRepository.assertLease db now lease
    require (db.isDescendant parentId false identity = true) (.runtime "NoResultFound")
    let row ← expect (db.works.get? identity) (.runtime "NoResultFound")
    let child ← expect (db.children.get? identity) (.runtime "NoResultFound")
    require (child.archivedAt = none) (.valueError "subagent_archived")
    require (row.state ≠ .cancelled) (.valueError "subagent_not_resumable")
    require (row.conversationId = lease.conversationId ∧ row.generation = lease.generation)
      (.valueError "subagent_not_owned")
    return queueWorker db now row

/-- `_RESULT_STATES`. -/
def resultStates : List WorkState :=
  [.completed, .failed, .cancelled, .suspended, .waitingUser]

/-- A row of `_result_statement`: what a result is prepared from. -/
structure ResultRow where
  id : String
  revision : Int
  state : WorkState
  parentWorkId : Option String
  reason : Option String
  conversationId : String
  generation : Int
  resultLeaf : Option Json

/-- `_result_leaf`. -/
def resultLeaf (w : WorkRow) : Option Json :=
  Sql.jsonAt w.checkpointJson [if w.state = .completed then "sync_result" else "reason"]

/-- `_result_statement` on one Work. -/
def resultRow (w : WorkRow) : ResultRow :=
  ⟨w.id, w.revision, w.state, w.parentWorkId, w.reason, w.conversationId, w.generation,
    resultLeaf w⟩

/-- A result with the bodies prepared from it, and the lease that publishes it, if any. -/
structure PreparedResult where
  lease : Option WorkLease
  row : ResultRow
  resultJson : Json
  inputJson : Json

namespace PreparedResult

def conversationId (p : PreparedResult) : String :=
  (p.lease.map WorkLease.conversationId).getD p.row.conversationId

def generation (p : PreparedResult) : Int :=
  (p.lease.map WorkLease.generation).getD p.row.generation

/-- The lease columns of the publication: the holder's, or of an expired worker. -/
def holds (p : PreparedResult) (now : Time) (c : ChildRow) : Bool :=
  match p.lease with
  | none => decide (c.leaseUntil ≤ now) && decide (c.notifiedRevision < p.row.revision)
  | some l => c.cancelEpoch == l.cancelEpoch && c.fence == l.fence && c.owner == some l.owner &&
      decide (now < c.leaseUntil)

/-- The Work is still the one the result was prepared from. -/
def current (p : PreparedResult) (w : WorkRow) : Bool :=
  w.conversationId == p.conversationId && w.generation == p.generation &&
    w.revision == p.row.revision && w.state == p.row.state &&
    (w.parentWorkId.isSome && w.parentWorkId == p.row.parentWorkId) && w.reason == p.row.reason &&
    (w.state.terminal || Sql.jsonAt w.checkpointJson ["reason"] == p.row.resultLeaf)

/-- Whether the publication statement updates the worker's row. -/
def publishes (p : PreparedResult) (db : Db) (now : Time) : Bool :=
  match db.works.get? p.row.id, db.children.get? p.row.id with
  | some w, some c =>
    p.current w && c.archivedAt.isNone && p.holds now c &&
      db.conversationGeneration p.conversationId == some p.generation
  | _, _ => false

def input (p : PreparedResult) (now : Time) : InputRow where
  id := 0
  conversationId := p.conversationId
  generation := p.generation
  sourceKey := "worker-result:" ++ p.row.id ++ ":" ++ toString p.row.revision
  workId := p.row.parentWorkId
  kind := "subagent"
  payload := .doc p.inputJson
  created := now

end PreparedResult

/-- The publication of one result in the worker's row. -/
def publishResult (db : Db) (p : PreparedResult) : Db :=
  { db with
    children := db.children.update (fun c => c.workId = p.row.id) fun c =>
      { c with resultJson := p.resultJson, notifiedRevision := p.row.revision,
               owner := if p.lease.isNone then none else c.owner,
               leaseUntil := if p.lease.isNone then 0 else c.leaseUntil } }

/-- `_finish_results`; the prepared results have distinct ids. Returns the published ids. -/
def finishResults (db : Db) (now : Time) (prepared : List PreparedResult) :
    Except Err (Db × List String) := do
  let published := prepared.filter fun p => p.publishes db now
  (prepared.filter fun p => !p.publishes db now).forM fun p =>
    match p.lease with
    | some lease => WorkRepository.assertLease db now lease
    | none => .ok ()
  let notified := published.filter fun p => resultStates.contains p.row.state
  let written := published.foldl publishResult db
  let inserted := notified.foldl (fun d p => (d.insertInput (p.input now)).1) written
  let parents := notified.filterMap fun p => p.row.parentWorkId
  let woken := if notified.isEmpty then inserted
    else inserted.wakeWaiting now fun w => parents.contains w.id
  return (woken, published.map fun p => p.row.id)

end SubagentRepository

end Yuki

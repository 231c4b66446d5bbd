import Yuki.Runtime.Lease
import Yuki.Lib.PyText

/-! Admission of Work: the first acceptance of a source, business children and workers. -/

namespace Yuki

/-- `not text.strip()`. -/
def blank (s : String) : Bool :=
  s.toList.all isSpace

/-- The arguments of `accept_in_session` beside the lease. -/
structure Admission where
  sourceKey : String
  source : Json
  preparedSourceJson : Json
  goal : String
  parentWorkId : Option String := none
  identity : Option String := none
  handoffFrom : Option String := none
  initialState : WorkState := .running

namespace WorkRepository

def selfAutomation (source : Json) : Bool :=
  source.get "origin" == .str "scheduled_automation" && source.get "principal_kind" == .str "self"

/-- A scheduled automation of the program's own, while its run is still running. -/
def selfAutomationValid (db : Db) (lease : WorkLease) (source : Json) : Bool :=
  match db.automationRuns.rows.find? fun r => source.get "automation_run_id" == .str r.id with
  | none => false
  | some run =>
    run.creatorKind == "self" && run.status == "running" &&
      source.get "automation_id" == .str run.automationId &&
      source.get "conversation_id" == .str lease.conversationId &&
      (source.get "generation").pyEq (.int lease.generation) &&
      !(source.get "actor_user_id").truthy && !(source.get "actor_person_id").truthy &&
      source.get "trigger_event_id" == .null

/-- An initiative of the program's own, tied to its run and scene. -/
def selfInitiativeValid (db : Db) (lease : WorkLease) (sourceKey : String) (source : Json) : Bool :=
  match db.initiativeRuns.rows.find? fun r => source.get "initiative_run_id" == .str r.id with
  | none => false
  | some run =>
    (run.state == "accepted" || run.state == "running") &&
      source.get "principal_kind" == .str "self" &&
      source.get "origin" == .str "self_initiative" &&
      sourceKey == "initiative:" ++ run.id &&
      run.conversationId == lease.conversationId && run.generation == lease.generation &&
      source.get "conversation_id" == .str run.conversationId &&
      (source.get "generation").pyEq (.int run.generation) &&
      (source.get "presence_id").pyEq run.presenceId &&
      (source.get "space_id").pyEq run.spaceId &&
      !(source.get "actor_user_id").truthy && !(source.get "person_id").truthy &&
      !(source.get "actor_person_id").truthy && source.get "trigger_event_id" == .null

/-- The checks on the parent, or on a source of the program's own. -/
def admissible (db : Db) (lease : WorkLease) (a : Admission) : Except Err Unit :=
  match a.parentWorkId with
  | some parentId =>
    let parent := (db.works.get? parentId).filter fun w =>
      w.conversationId == lease.conversationId && w.generation == lease.generation &&
        !w.state.terminal
    require (parent.isSome ∧ (lease.workId = none ∨ lease.workId = some parentId))
      (.workConflict "work_parent_source_invalid")
  | none =>
    if selfAutomation a.source then
      require (selfAutomationValid db lease a.source)
        (.workConflict "invalid_self_automation_work_admission")
    else if a.source.get "origin" == .str "self_initiative" then
      require (selfInitiativeValid db lease a.sourceKey a.source)
        (.workConflict "invalid_self_work_admission")
    else .ok ()

/-- The row a first admission inserts. -/
def admitted (now : Time) (lease : WorkLease) (a : Admission) (fresh : String) : WorkRow where
  id := (a.identity.filter fun i => i ≠ "").getD fresh
  parentWorkId := a.parentWorkId
  conversationId := lease.conversationId
  generation := lease.generation
  sourceKey := a.sourceKey
  sourceJson := a.preparedSourceJson
  goal := a.goal
  state := if (a.handoffFrom.filter fun i => i ≠ "").isSome then .queued else a.initialState
  created := now
  updated := now

/-- `INSERT … ON CONFLICT (source_key) DO NOTHING`; a clash of ids alone raises. -/
def insertWork (db : Db) (row : WorkRow) : Except Err Db :=
  if (db.workBySource row.sourceKey).isSome then .ok db
  else do
    require (row.id ∉ db.works.rows.map WorkRow.id) (.runtime "IntegrityError")
    return { db with works := db.works.insert row }

/-- The former Work notes to which Work it handed over. -/
def handOver (db : Db) (now : Time) (lease : WorkLease) (row : WorkRow) :
    Option String → Except Err Db
  | none => .ok db
  | some previousId => do
    let previous ← expect (db.works.get? previousId) (.runtime "NoResultFound")
    require (previous.id ≠ row.id ∧ previous.conversationId = lease.conversationId ∧
        previous.generation = lease.generation ∧ previous.state.terminal = false ∧
        lease.worker = none)
      (.workConflict "work_handoff_source_invalid")
    return { db with
      works := db.works.update (fun w => w.id = previousId) fun w =>
        { w with checkpointJson := Sql.jsonSet w.checkpointJson ["handoff_work_id"] (.str row.id),
                 updated := now } }

/-- `accept_in_session`; `fresh` is the id generated when none is given. -/
def acceptInSession (db : Db) (now : Time) (lease : WorkLease) (a : Admission) (fresh : String) :
    Except Err (Db × WorkRow) := do
  require (blank a.goal = false ∧ a.sourceKey ≠ "") (.valueError "invalid_work_goal")
  require (a.initialState = .running ∨ a.initialState = .queued)
    (.valueError "invalid_work_initial_state")
  assertLease db now lease
  admissible db lease a
  let inserted ← insertWork db (admitted now lease a fresh)
  let row ← expect (inserted.workBySource a.sourceKey) (.runtime "NoResultFound")
  require (row.conversationId = lease.conversationId ∧ row.generation = lease.generation ∧
      row.sourceJson = a.preparedSourceJson ∧ row.parentWorkId = a.parentWorkId)
    (.workConflict "work_source_conflict")
  require (row.state.terminal = false ∨ a.parentWorkId ≠ none)
    (.workConflict "work_already_terminal")
  let handed ← handOver inserted now lease row a.handoffFrom
  return (handed, row)

/-- `accept`, which encodes the source itself. -/
def accept (db : Db) (now : Time) (lease : WorkLease) (a : Admission) (fresh : String) :
    Except Err (Db × WorkRow) :=
  acceptInSession db now lease { a with preparedSourceJson := a.source.sortKeys } fresh

end WorkRepository

namespace SubagentRepository

/-- The goal of a worker's brief. -/
def briefGoal (brief : Json) : Option String :=
  match brief.get "goal" with
  | .str goal => if blank goal then none else some goal
  | _ => none

/-- The source a worker runs under: its parent's, under its own identity. -/
def workerSource (parentSource : Json) (parentId identity : String) : Json :=
  ((parentSource.set "work_id" (.str identity)).set "parent_work_id" (.str parentId)).set "worker"
    (.bool true)

/-- The worker row of an admitted Work. -/
def insertChild (db : Db) (row : ChildRow) : Except Err Db := do
  require (row.workId ∉ db.children.rows.map ChildRow.workId) (.runtime "IntegrityError")
  return { db with children := db.children.insert row }

/-- `start`: admits a worker under `parentId`; `identity` is its new id. -/
def start (seen db : Db) (now : Time) (lease : WorkLease) (parentId key : String) (brief : Json)
    (identity : String) : Except Err (Db × String) := do
  require (lease.workId = none ∨ lease.workId = some parentId) (.valueError "subagent_not_owned")
  let goal ← expect (briefGoal brief) (.valueError "invalid_subagent_goal")
  let encoded := brief.sortKeys
  let snapshot ← expect (seen.works.get? parentId) (.runtime "NoResultFound")
  let source := workerSource snapshot.sourceJson parentId identity
  WorkRepository.assertLease db now lease
  let root ← expect (db.works.get? parentId) (.runtime "NoResultFound")
  require (root.conversationId = lease.conversationId ∧ root.generation = lease.generation ∧
      root.state.terminal = false ∧ root.sourceJson = snapshot.sourceJson)
    (.workConflict "subagent_parent_unavailable")
  match db.children.rows.find? fun c => c.sourceKey == key with
  | some previous => do
    require ((db.works.get? previous.workId).bind WorkRow.parentWorkId = some parentId ∧
      previous.briefJson = encoded) (.workConflict "subagent_start_conflict")
    return (db, previous.workId)
  | none => do
    require db.subagentsEnabled (.valueError "subagent_admission_disabled")
    let admission : Admission :=
      { sourceKey := "worker:" ++ identity, source := source,
        preparedSourceJson := source.sortKeys, goal := goal, parentWorkId := some parentId,
        identity := some identity, initialState := .queued }
    let accepted ← WorkRepository.acceptInSession db now lease admission identity
    let started ← insertChild accepted.1
      { workId := identity, sourceKey := key, briefJson := encoded }
    return (started, identity)

end SubagentRepository

namespace WorkRepository

/-- The Work a lease's conversation and generation select. -/
def leased (db : Db) (lease : WorkLease) (id : String) : Option WorkRow :=
  (db.works.get? id).filter fun w =>
    w.conversationId == lease.conversationId && w.generation == lease.generation

/-- `derive`: a business child with the source of its parent; a worker's child is a worker. -/
def derive (seen seen' db : Db) (now : Time) (lease : WorkLease) (parentWorkId key goal : String)
    (fresh : String) : Except Err (Db × WorkRow) := do
  let observed ← expect (leased seen lease parentWorkId) (.runtime "NoResultFound")
  match seen.children.get? parentWorkId with
  | some child => do
    let started ← SubagentRepository.start seen' db now lease parentWorkId key
      (child.briefJson.set "goal" (.str goal)) fresh
    let created ← expect (started.1.works.get? started.2) (.runtime "AssertionError")
    return (started.1, created)
  | none => do
    assertLease db now lease
    let parent ← expect (leased db lease parentWorkId) (.runtime "NoResultFound")
    require (parent.sourceJson = observed.sourceJson) (.workConflict "work_parent_source_invalid")
    let admission : Admission :=
      { sourceKey := key, source := observed.sourceJson,
        preparedSourceJson := observed.sourceJson.sortKeys, goal := goal,
        parentWorkId := some parentWorkId, initialState := .queued }
    acceptInSession db now lease admission fresh

end WorkRepository

end Yuki

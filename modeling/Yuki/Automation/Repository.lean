import Yuki.Automation.Schedules
import Yuki.Runtime.Schema

/-! The automations repository: rows, immutable versions, runs, and claims. -/

namespace Yuki

inductive AutomationStatus
  | active | paused | completed | cancelled | failed | blocked
deriving DecidableEq, Repr

inductive RunStatus
  | running | succeeded | failed | cancelled | missed | uncertain | blocked
deriving DecidableEq, Repr

/-- `automations`. -/
structure AutomationRow where
  id : Nat
  creatorKind : String
  canonicalCreatorPersonId : Option String
  canonicalPresenceId : String
  creationSourceKey : Option String
  status : AutomationStatus
  nextRunAt : Option Time
  lastRunAt : Option Time := none
  runCount : Int := 0
  maxRuns : Option Int
  creationMaxRuns : Option Int
  claimedBy : Option String := none
  claimedUntil : Option Time := none
  createdAt : Time
  updatedAt : Time

structure AutomationScene where
  principalKind : String
  canonicalCreatorPersonId : Option String
  canonicalPresenceId : String

/-- What a version keeps of a task: `trigger`, `timezone`, the hash, and the authority. -/
structure PreparedTaskDefinition where
  trigger : Schedule
  timezone : Option String
  scriptHash : String
  authority : AutomationScene

/-- `automation_versions`; an old version may lack its authority. -/
structure VersionRow where
  id : Nat
  automationId : Nat
  version : Nat
  trigger : Schedule
  timezone : Option String
  scriptHash : String
  hasAuthority : Bool
  createdAt : Time

/-- `automation_runs`. -/
structure RunRow where
  id : Nat
  automationId : Nat
  versionId : Option Nat
  scheduledFor : Time
  actualStartedAt : Time
  finishedAt : Option Time := none
  status : RunStatus
  llmCalls : Int := 0
  toolCalls : Int := 0
  messagesSent : Int := 0
  errorCategory : Option String := none
  resultSummary : Json := .obj []
  createdAt : Time
deriving DecidableEq

/-- `runtime_automation_cursors`. -/
structure InvocationRow where
  runId : Nat
  scriptHash : String
  payloadJson : Json

/-- `_automation_record`, as far as its readers go. -/
structure AutomationRecord where
  id : Nat
  versionId : Nat
  claimedBy : Option String
  status : AutomationStatus
  timezone : String
  schedule : Schedule
  scriptHash : String
  nextRunAt : Option Time
  runCount : Int
  maxRuns : Option Int
  creationMaxRuns : Option Int
deriving DecidableEq

structure AutomationDb where
  /-- Persons and Works. -/
  host : Db := {}
  enabledPersons : List String := []
  presences : List String := []
  automations : Table AutomationRow.id := .empty
  versions : Table VersionRow.id := .empty
  runs : Table RunRow.id := .empty
  invocations : Table InvocationRow.runId := .empty

/-- What a platform provides beside the calendar. -/
structure Platform extends Calendar where
  casefold : String → String

/-- The next `INTEGER PRIMARY KEY`. -/
def nextKey (ids : List Nat) : Nat :=
  ids.foldl max 0 + 1

def Schedule.timezone : Schedule → Option String
  | .daily s => s.timezone
  | .weekly s => s.timezone
  | _ => none

/-- `task_timezone`. -/
def taskTimezone (trigger : Schedule) (timezone : Option String) : String :=
  ((trigger.timezone.filter (· ≠ "")).or (timezone.filter (· ≠ ""))).getD "Asia/Shanghai"

def automationRecord (row : AutomationRow) (version : VersionRow) : AutomationRecord :=
  { id := row.id, versionId := version.id, claimedBy := row.claimedBy, status := row.status,
    timezone := taskTimezone version.trigger version.timezone, schedule := version.trigger,
    scriptHash := version.scriptHash, nextRunAt := row.nextRunAt, runCount := row.runCount,
    maxRuns := row.maxRuns, creationMaxRuns := row.creationMaxRuns }

/-- `person_family_condition`. -/
def personFamily (db : Db) (column : Option String) (personId : String) : Bool :=
  match db.persons.get? personId with
  | none => false
  | some person =>
    let root := person.mergedIntoPersonId.getD person.id
    column.any fun id => (db.persons.get? id).any fun p =>
      p.id == root || p.mergedIntoPersonId == some root

/-- `_owner_clause`. -/
def ownerClause (db : AutomationDb) (ownerId : String) (row : AutomationRow) : Bool :=
  if ownerId = "self" then row.creatorKind == "self"
  else row.creatorKind == "person" && personFamily db.host row.canonicalCreatorPersonId ownerId

namespace AutomationDb

/-- An UPDATE of automations, and whether it touched a row. -/
def updateAutomations (db : AutomationDb) (p : AutomationRow → Bool)
    (f : AutomationRow → AutomationRow) (hf : ∀ r, (f r).id = r.id := by intro r; rfl) :
    AutomationDb × Bool :=
  ({ db with automations := db.automations.update p f hf }, db.automations.rows.any p)

/-- The newest version of an automation. -/
def currentVersion (db : AutomationDb) (automationId : Nat) : Option VersionRow :=
  (db.versions.rows.filter fun v => v.automationId == automationId).foldl (fun best v =>
    match best with
    | none => some v
    | some b => if b.version < v.version then some v else some b) none

def runsOf (db : AutomationDb) (automationId : Nat) : List RunRow :=
  db.runs.rows.filter fun r => r.automationId == automationId

/-- Whether a run of the automation exists for this instant. -/
def occurred (db : AutomationDb) (automationId : Nat) (scheduled : Time) : Bool :=
  db.runs.rows.any fun r => r.automationId == automationId && r.scheduledFor == scheduled

def runningCount (db : AutomationDb) (automationId : Nat) : Int :=
  (db.runs.rows.filter fun r => r.automationId == automationId && r.status == .running).length

end AutomationDb

namespace AutomationRepository

/-- `get_by_creation_key`. -/
def getByCreationKey (db : AutomationDb) (creator key : String) : Option AutomationRow :=
  db.automations.rows.find? fun r => ownerClause db creator r && r.creationSourceKey == some key

/-- The script hash of the first version. -/
def initialScriptHash (db : AutomationDb) (automationId : Nat) : Option String :=
  ((db.versions.rows.filter fun v => v.automationId == automationId).foldl (fun best v =>
    match best with
    | none => some v
    | some b => if v.version < b.version then some v else some b) none).map VersionRow.scriptHash

/-- `create`; a creation key seen before yields its automation. -/
def create (db : AutomationDb) (definition : PreparedTaskDefinition) (creator : String)
    (maxRuns : Option Int) (nextRunAt now : Time) (creationSourceKey : Option String) :
    Except Err (AutomationDb × AutomationRow) :=
  match creationSourceKey.bind (getByCreationKey db creator) with
  | some previous =>
    if initialScriptHash db previous.id ≠ some definition.scriptHash ∨
        previous.creationMaxRuns ≠ maxRuns then
      .error (.valueError "automation_creation_key_conflict")
    else .ok (db, previous)
  | none => do
    let authority := definition.authority
    require (creator = "self" ∨ (db.host.persons.get? creator).isSome ∧
        creator ∈ db.enabledPersons ∧ authority.canonicalCreatorPersonId.any fun id =>
          ((db.host.persons.get? id).map fun p => p.mergedIntoPersonId.getD p.id) ==
            (db.host.persons.get? creator).map fun p => p.mergedIntoPersonId.getD p.id)
      (.valueError "创建者没有对应的永久主体")
    require (authority.principalKind = if creator = "self" then "self" else "person")
      (.valueError "invalid_automation_owner")
    require (authority.canonicalPresenceId ∈ db.presences)
      (.valueError "automation_presence_unavailable")
    let row : AutomationRow :=
      { id := nextKey (db.automations.rows.map AutomationRow.id)
        creatorKind := authority.principalKind
        canonicalCreatorPersonId := if creator = "self" then none else some creator
        canonicalPresenceId := authority.canonicalPresenceId
        creationSourceKey := creationSourceKey
        status := .active
        nextRunAt := some nextRunAt
        maxRuns := maxRuns
        creationMaxRuns := maxRuns
        createdAt := now
        updatedAt := now }
    let version : VersionRow :=
      ⟨nextKey (db.versions.rows.map VersionRow.id), row.id, 1, definition.trigger,
        definition.timezone, definition.scriptHash, true, now⟩
    return ({ db with
      automations := db.automations.insert row
      versions := db.versions.insert version }, row)

/-- `set_status`. -/
def setStatus (db : AutomationDb) (automationId : Nat) (creator : String)
    (status : AutomationStatus) (now : Time) : AutomationDb × Bool :=
  let ended := status == .cancelled || status == .completed
  db.updateAutomations (fun r => r.id == automationId && ownerClause db creator r &&
      r.status != .cancelled && r.status != .completed) fun r =>
    { r with
      status := status
      updatedAt := now
      nextRunAt := if ended then none else r.nextRunAt
      claimedBy := if ended then none else r.claimedBy
      claimedUntil := if ended then none else r.claimedUntil }

/-- `cancel`. -/
def cancel (db : AutomationDb) (automationId : Nat) (creator : String) (now : Time) :
    AutomationDb × Bool :=
  db.updateAutomations (fun r => r.id == automationId && ownerClause db creator r &&
      r.status != .cancelled) fun r =>
    { r with status := .cancelled, nextRunAt := none, updatedAt := now }

/-- `resume`. -/
def resume (db : AutomationDb) (automationId : Nat) (creator : String) (nextRunAt now : Time) :
    AutomationDb × Bool :=
  db.updateAutomations (fun r => r.id == automationId && ownerClause db creator r &&
      (r.status == .paused || r.status == .failed || r.status == .blocked)) fun r =>
    { r with status := .active, nextRunAt := some nextRunAt, updatedAt := now }

/-- `schedule_now`. -/
def scheduleNow (db : AutomationDb) (automationId : Nat) (creator : String) (now : Time) :
    AutomationDb × Bool :=
  db.updateAutomations (fun r => r.id == automationId && ownerClause db creator r &&
      r.status != .cancelled && r.status != .completed) fun r =>
    { r with status := .active, nextRunAt := some now, updatedAt := now }

/-- The row after `publish_task`; `running` tells whether a run is in flight. -/
def published (row : AutomationRow) (now : Time) (nextRunAt : Option Time)
    (maxRuns : Option (Option Int)) (running : Bool) : AutomationRow :=
  let row := { row with nextRunAt := nextRunAt.or row.nextRunAt, updatedAt := now }
  match maxRuns with
  | none => row
  | some limit =>
    let row := { row with maxRuns := limit }
    if (limit.any fun n => n ≤ row.runCount) ∧ running = false then
      { row with status := .completed, nextRunAt := none }
    else row

theorem published_id (row : AutomationRow) (now : Time) (nextRunAt : Option Time)
    (maxRuns : Option (Option Int)) (running : Bool) :
    (published row now nextRunAt maxRuns running).id = row.id := by
  unfold published
  dsimp only
  split
  · rfl
  split <;> rfl

/-- `publish_task`; `maxRuns` is set when it is `some`. -/
def publishTask (db : AutomationDb) (automationId : Nat) (creator : String)
    (definition : PreparedTaskDefinition) (now : Time) (nextRunAt : Option Time)
    (maxRuns : Option (Option Int)) : AutomationDb × Option AutomationRecord :=
  match (db.automations.get? automationId).filter (ownerClause db creator) with
  | none => (db, none)
  | some row =>
    if row.status = .cancelled ∨ row.status = .completed then (db, none)
    else
      let latest := ((db.currentVersion automationId).map VersionRow.version).getD 0
      let version : VersionRow :=
        ⟨nextKey (db.versions.rows.map VersionRow.id), automationId, latest + 1,
          definition.trigger, definition.timezone, definition.scriptHash, true, now⟩
      let running := decide (db.runningCount automationId ≠ 0)
      ({ db with
          automations := db.automations.update (fun r => r.id == automationId)
            (fun r => published r now nextRunAt maxRuns running)
            fun r => published_id r now nextRunAt maxRuns running
          versions := db.versions.insert version },
        some (automationRecord (published row now nextRunAt maxRuns running) version))

/-! Claims. -/

/-- `due_at` in `claim_due`. -/
def dueAt (db : AutomationDb) (enabled : Bool) (current : Time) (row : AutomationRow) : Bool :=
  enabled && row.status == .active &&
    row.nextRunAt.any fun next => decide (next ≤ current) && !db.occurred row.id next

/-- The ids of a page of `claim_due`, behind `after`. -/
def claimPage (db : AutomationDb) (enabled : Bool) (timestamp : Time)
    (after : Option (Time × Nat)) : List (Time × Nat) :=
  let rows := db.automations.rows.filter fun r => dueAt db enabled timestamp r &&
    r.claimedUntil.all fun until_ => decide (until_ < timestamp)
  let keys := (rows.map fun r => (r.nextRunAt.getD 0, r.id)).filter fun key =>
    after.all fun a => decide (a.1 < key.1) || (key.1 == a.1 && decide (a.2 < key.2))
  (keys.mergeSort fun a b => decide (a.1 < b.1) || (a.1 == b.1 && decide (a.2 ≤ b.2))).take 128

/-- The rows the claiming UPDATE of `claim_due` takes. -/
def claimable (db : AutomationDb) (enabled : Bool) (timestamp claimedAt : Time)
    (candidates : List Nat) (row : AutomationRow) : Bool :=
  candidates.contains row.id && dueAt db enabled timestamp row &&
    row.claimedUntil.all fun until_ => decide (until_ < claimedAt)

/-- The claiming transaction of `claim_due`, and the records it yields. -/
def claimDue (db : AutomationDb) (workerId : String) (enabled : Bool)
    (timestamp claimedAt leaseSeconds : Time) (candidates : List Nat) :
    AutomationDb × List AutomationRecord :=
  let claimed (r : AutomationRow) : AutomationRow :=
    { r with claimedBy := some workerId, claimedUntil := some (claimedAt + leaseSeconds) }
  ((db.updateAutomations (claimable db enabled timestamp claimedAt candidates) claimed).1,
    candidates.filterMap fun id =>
      ((db.automations.get? id).filter (claimable db enabled timestamp claimedAt candidates)).bind
        fun r => (db.currentVersion id).map (automationRecord (claimed r)))

/-- `release_claim`. -/
def releaseClaim (db : AutomationDb) (automationId : Nat) (workerId : String)
    (notBefore : Option Time) : AutomationDb :=
  (db.updateAutomations (fun r => r.id == automationId && r.claimedBy == some workerId) fun r =>
    { r with claimedBy := none, claimedUntil := notBefore }).1

/-- `renew_claim`. -/
def renewClaim (db : AutomationDb) (automationId : Nat) (workerId : String)
    (leaseSeconds now : Time) : AutomationDb × Bool :=
  db.updateAutomations (fun r => r.id == automationId && r.claimedBy == some workerId &&
      r.claimedUntil.any fun until_ => decide (now < until_)) fun r =>
    { r with claimedUntil := some (now + leaseSeconds) }

/-! Runs. -/

/-- Whether a worker may create the run: the claim, the occurrence and the version are its own. -/
def mayCreate (db : AutomationDb) (owner : AutomationRow) (scheduledFor now : Time)
    (workerId : Option String) (versionId : Option Nat) : Bool :=
  workerId.all fun worker =>
    owner.claimedBy == some worker &&
    (owner.claimedUntil.any fun until_ => decide (now < until_)) &&
    owner.status == .active &&
    owner.nextRunAt == some scheduledFor &&
    (db.currentVersion owner.id).map VersionRow.id == versionId

def newRun (db : AutomationDb) (automationId versionId : Nat) (scheduledFor startedAt : Time) :
    RunRow :=
  { id := nextKey (db.runs.rows.map RunRow.id), automationId := automationId,
    versionId := some versionId, scheduledFor := scheduledFor, actualStartedAt := startedAt,
    status := .running, createdAt := startedAt }

/-- `create_run`. -/
def createRun (db : AutomationDb) (automationId : Nat) (scheduledFor startedAt now : Time)
    (workerId : Option String) (versionId : Option Nat) :
    Except Err (AutomationDb × Option RunRow) := do
  let owner ← expect (db.automations.get? automationId) (.valueError "automation_not_found")
  if mayCreate db owner scheduledFor now workerId versionId = false then return (db, none)
  match db.runs.rows.find? fun r =>
      r.automationId == automationId && r.scheduledFor == scheduledFor with
  | some existing =>
    if existing.status ≠ .running ∧ owner.nextRunAt = some scheduledFor then
      return ((db.updateAutomations (fun r => r.id == automationId) fun r =>
        { r with nextRunAt := none }).1, none)
    return (db, none)
  | none =>
    let admitted := db.runningCount automationId
    if owner.maxRuns.any fun limit => limit ≤ owner.runCount + admitted then
      if admitted = 0 then
        return ((db.updateAutomations (fun r => r.id == automationId) fun r =>
          { r with status := .completed, nextRunAt := none }).1, none)
      return (db, none)
    let version ← expect
      ((versionId.or ((db.currentVersion automationId).map VersionRow.id)).bind db.versions.get?)
      (.valueError "automation_version_unavailable")
    let run := newRun db automationId version.id scheduledFor startedAt
    return ({ db with runs := db.runs.insert run }, some run)

mutual

/-- `_redacted_json` before it is written out. -/
def redacted (casefold : String → String) : Json → Json
  | .arr items => .arr (redactedItems casefold items)
  | .obj fields => .obj (redactedFields casefold fields)
  | v => v

def redactedItems (casefold : String → String) : List Json → List Json
  | [] => []
  | v :: vs => redacted casefold v :: redactedItems casefold vs

def redactedFields (casefold : String → String) : List (String × Json) → List (String × Json)
  | [] => []
  | (k, v) :: fs =>
    (k, if ["api_key", "token", "password", "secret", "authorization"].contains (casefold k)
      then .str "[redacted]" else redacted casefold v) :: redactedFields casefold fs

end

/-- The next occurrence by the schedule the run was accepted with, read before the writer. -/
def nextScheduled (os : Platform) (seen : AutomationDb) (runId : Nat) (timestamp : Time) :
    Except Err (Option Time) :=
  let accepted := (seen.runs.get? runId).bind fun run =>
    (run.versionId.bind seen.versions.get?).map fun version => (run, version)
  match accepted with
  | none => .ok none
  | some (run, version) =>
    if version.hasAuthority then
      scheduleAfterCompletion os.toCalendar version.trigger run.scheduledFor timestamp
        version.timezone
    else .ok none

/-- What a caller of `finish_run` reports. -/
structure RunReport where
  status : RunStatus
  llmCalls : Int
  toolCalls : Int
  messagesSent : Int
  errorCategory : Option String
  summary : Json
  finishedAt : Time

/-- The automation's row after one of its runs has ended. -/
def afterRun (row : AutomationRow) (run : RunRow) (status : RunStatus) (timestamp : Time)
    (next : Option Time) : AutomationRow :=
  let row := { row with
    lastRunAt := some timestamp, runCount := row.runCount + 1, updatedAt := timestamp }
  if row.status = .cancelled ∨ row.status = .completed then row
  else if status ≠ .blocked ∧ row.maxRuns.any fun limit => limit ≤ row.runCount then
    { row with status := .completed, nextRunAt := none }
  else if row.nextRunAt = some run.scheduledFor then
    let row := { row with nextRunAt := next }
    if row.status = .paused then row
    else if status = .blocked then { row with status := .blocked }
    else if row.nextRunAt = none then
      { row with status := if status = .succeeded then .completed else .failed }
    else row
  else row

/-- The row of an ended run. -/
def ended (os : Platform) (run : RunRow) (report : RunReport) : RunRow :=
  { run with
    status := report.status
    llmCalls := max report.llmCalls run.llmCalls
    toolCalls := max report.toolCalls run.toolCalls
    messagesSent := max report.messagesSent run.messagesSent
    errorCategory := report.errorCategory
    resultSummary := redacted os.casefold report.summary
    finishedAt := some report.finishedAt }

theorem afterRun_id (row : AutomationRow) (run : RunRow) (status : RunStatus) (timestamp : Time)
    (next : Option Time) : (afterRun row run status timestamp next).id = row.id := by
  unfold afterRun
  dsimp only
  split
  · rfl
  split
  · rfl
  split
  · split
    · rfl
    split
    · rfl
    split <;> rfl
  · rfl

/-- The writes of `finish_run` on a run it closes. -/
def closeRun (os : Platform) (db : AutomationDb) (run : RunRow) (report : RunReport)
    (next : Option Time) : AutomationDb :=
  { db with
    runs := db.runs.update (fun r => r.id == run.id) fun r => ended os r report
    automations := db.automations.update (fun r => r.id == run.automationId)
      (fun r => afterRun r run report.status report.finishedAt next)
      fun r => afterRun_id r run report.status report.finishedAt next }

/-- `finish_run`: `seen` is what its reader saw. -/
def finishRun (os : Platform) (seen db : AutomationDb) (runId : Nat) (report : RunReport)
    (workerId : Option String) : Except Err (AutomationDb × Bool) := do
  let next ← nextScheduled os seen runId report.finishedAt
  match db.runs.get? runId with
  | none => return (db, false)
  | some run =>
    let owned := workerId.all fun worker =>
      (db.automations.get? run.automationId).any fun a => a.claimedBy == some worker
    if run.status ≠ .running ∨ owned = false then return (db, false)
    return (closeRun os db run report next, true)

/-! Settlement of runs whose execution is gone. -/

/-- Whether a Work is the root Work of a run. -/
def ownedBy (run : RunRow) (w : WorkRow) : Bool :=
  ((Sql.jsonExtract w.sourceJson ["owner"]).eq (.text "automation")).holds &&
    ((Sql.jsonExtract w.sourceJson ["automation_run_id"]).eq (.int run.id)).holds &&
    w.parentWorkId.isNone

/-- The runs `settle_interrupted_occurrences` reads: running, without a Work of their own. -/
def interruptedRuns (seen : AutomationDb) (runId : Option Nat) (occurrence : Option (Nat × Time)) :
    List RunRow :=
  seen.runs.rows.filter fun r =>
    r.status == .running && !(seen.host.works.rows.any (ownedBy r)) &&
      (runId.all fun id => r.id == id) &&
      occurrence.all fun o => r.automationId == o.1 && r.scheduledFor == o.2

/-- How an interrupted run is closed. -/
def interruptedReport (run : RunRow) (errorCategory : String) (now : Time) : RunReport :=
  ⟨.uncertain, run.llmCalls, run.toolCalls, run.messagesSent, some errorCategory,
    run.resultSummary, now⟩

/-- Whether a Work executes the run, by its cursor or by its key. -/
def executes (seen : AutomationDb) (run : RunRow) (version : VersionRow) (w : WorkRow) : Bool :=
  ownedBy run w &&
    match seen.invocations.get? run.id with
    | some cursor => cursor.scriptHash == version.scriptHash &&
        ((Sql.jsonExtract cursor.payloadJson ["work_id"]).eq (.text w.id)).holds
    | none => w.sourceKey == "automation:" ++ toString run.id ++ ":" ++ version.scriptHash

/-- How a run is closed whose Work has ended. -/
def workReport (w : WorkRow) (now : Time) : Option RunReport :=
  let report (status : RunStatus) : RunReport :=
    ⟨status, w.modelRequests, w.toolCalls, w.sentMessages,
      if w.state = .completed then none else some w.state.name,
      .obj [("work_id", .str w.id), ("work_state", .str w.state.name),
        ("messages_sent_semantics", .str "work_delivery_reservations")], now⟩
  match w.state with
  | .completed => some (report .succeeded)
  | .failed => some (report .failed)
  | .cancelled => some (report .cancelled)
  | _ => none

/-- The runs `settle_work_occurrences` reads, with the Works that have ended. -/
def endedWorks (seen : AutomationDb) : List (RunRow × WorkRow) :=
  seen.runs.rows.flatMap fun r =>
    match r.versionId.bind seen.versions.get? with
    | none => []
    | some version =>
      if r.status = .running then
        (seen.host.works.rows.filter fun w => executes seen r version w && w.state.terminal).map
          fun w => (r, w)
      else []

end AutomationRepository

end Yuki

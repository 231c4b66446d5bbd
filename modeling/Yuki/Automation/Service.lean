import Yuki.Automation.Repository

/-! The automation service, for an actor whom `_manageable_row` lets through: refused
operations write nothing. -/

namespace Yuki

open AutomationRepository

namespace AutomationService

/-- `_canonical_owner`. -/
def canonicalOwner (row : AutomationRow) : Except Err String :=
  if row.creatorKind = "self" then .ok "self"
  else expect row.canonicalCreatorPersonId (.permissionError "自动化任务没有永久创建者，不能修改")

/-- `prepare_task`. -/
def prepareTask (cal : Calendar) (trigger : Schedule) (timezone : String) : Except Err Schedule :=
  match trigger with
  | .daily s => (validateTimezone cal s.timezone (some timezone)).map fun zone =>
    .daily { s with timezone := some zone }
  | .weekly s => (validateTimezone cal s.timezone (some timezone)).map fun zone =>
    .weekly { s with timezone := some zone }
  | s => .ok s

/-- `_max_runs`. -/
def checkMaxRuns (maxRuns : Option Int) : Except Err Unit :=
  require (maxRuns.all fun n => decide (0 < n)) (.valueError "max_runs 必须是正整数")

/-- `create_task`. -/
def createTask (cal : Calendar) (db : AutomationDb) (now : Time) (creator : String)
    (trigger : Schedule) (defaultTimezone scriptHash : String) (authority : AutomationScene)
    (maxRuns : Option Int) (creationKey : Option String) :
    Except Err (AutomationDb × AutomationRow) := do
  checkMaxRuns maxRuns
  let trigger ← prepareTask cal trigger defaultTimezone
  let next ← initialRunAt cal trigger now
  create db ⟨trigger, none, scriptHash, authority⟩ creator maxRuns next now creationKey

/-- `update_task`; `maxRuns` is unset when it is `none`. -/
def updateTask (cal : Calendar) (db : AutomationDb) (now : Time) (automationId : Nat)
    (trigger : Schedule) (scriptHash : String) (authority : AutomationScene)
    (maxRuns : Option (Option Int)) : Except Err (AutomationDb × AutomationRecord) := do
  let row ← expect (db.automations.get? automationId) (.valueError "自动化任务不存在")
  let version ← expect (db.currentVersion automationId) (.runtime "AssertionError")
  let existing := automationRecord row version
  checkMaxRuns (maxRuns.getD none)
  let trigger ← prepareTask cal trigger existing.timezone
  let next ← onlyIf (existing.schedule != trigger) none ((initialRunAt cal trigger now).map some)
  let owner ← canonicalOwner row
  match publishTask db automationId owner ⟨trigger, none, scriptHash, authority⟩ now next maxRuns with
  | (written, some record) => return (written, record)
  | (_, none) => throw (.valueError "该任务已经结束，不能更新")

inductive Transition
  | pause | resume | cancel

/-- `transition_status`. -/
def transitionStatus (db : AutomationDb) (now : Time) (automationId : Nat) (action : Transition) :
    Except Err (AutomationDb × Bool) := do
  let current ← expect (db.automations.get? automationId) (.valueError "自动化任务不存在")
  let creator ← canonicalOwner current
  match action with
  | .pause => return setStatus db automationId creator .paused now
  | .resume => return AutomationRepository.resume db automationId creator (current.nextRunAt.getD now) now
  | .cancel => return cancel db automationId creator now

/-- `run_now`. -/
def runNow (db : AutomationDb) (now : Time) (automationId : Nat) :
    Except Err (AutomationDb × Bool) := do
  let current ← expect (db.automations.get? automationId) (.valueError "自动化任务不存在")
  let creator ← canonicalOwner current
  return scheduleNow db automationId creator now

end AutomationService

/-- The database, the clock, and the records `claim_due` has handed to workers. -/
structure AutomationWorld where
  db : AutomationDb
  clock : Time
  claims : List AutomationRecord := []

open AutomationService in
/-- One operation, each at a later time than the one before; one that raises changes nothing. -/
inductive ServiceStep (os : Platform) : AutomationWorld → AutomationWorld → Prop
  | create {w : AutomationWorld} {db : AutomationDb} {row : AutomationRow} (now : Time)
      (creator : String) (trigger : Schedule) (timezone scriptHash : String)
      (authority : AutomationScene) (maxRuns : Option Int) (key : Option String) : w.clock < now →
      createTask os.toCalendar w.db now creator trigger timezone scriptHash authority maxRuns key =
        .ok (db, row) → ServiceStep os w { w with db := db, clock := now }
  | update {w : AutomationWorld} {db : AutomationDb} {record : AutomationRecord} (now : Time)
      (id : Nat) (trigger : Schedule) (scriptHash : String) (authority : AutomationScene)
      (maxRuns : Option (Option Int)) : w.clock < now →
      updateTask os.toCalendar w.db now id trigger scriptHash authority maxRuns =
        .ok (db, record) → ServiceStep os w { w with db := db, clock := now }
  | transition {w : AutomationWorld} {db : AutomationDb} {changed : Bool} (now : Time) (id : Nat)
      (action : Transition) : w.clock < now →
      transitionStatus w.db now id action = .ok (db, changed) →
      ServiceStep os w { w with db := db, clock := now }
  | runNow {w : AutomationWorld} {db : AutomationDb} {changed : Bool} (now : Time) (id : Nat) :
      w.clock < now → runNow w.db now id = .ok (db, changed) →
      ServiceStep os w { w with db := db, clock := now }
  /-- `now` of `claim_due` is read before its pages; the lease counts from the claim. -/
  | claimDue {w : AutomationWorld} (now timestamp leaseSeconds : Time) (workerId : String)
      (enabled : Bool) (after : Option (Time × Nat)) : w.clock < now → timestamp ≤ now →
      ServiceStep os w
        (let claimed := claimDue w.db workerId enabled timestamp now leaseSeconds
          ((claimPage w.db enabled timestamp after).map Prod.snd)
        { db := claimed.1, clock := now, claims := w.claims ++ claimed.2 })
  | releaseClaim {w : AutomationWorld} (now : Time) (id : Nat) (workerId : String)
      (notBefore : Option Time) : w.clock < now →
      ServiceStep os w { w with db := releaseClaim w.db id workerId notBefore, clock := now }
  | renewClaim {w : AutomationWorld} (now leaseSeconds : Time) (id : Nat) (workerId : String) :
      w.clock < now →
      ServiceStep os w { w with db := (renewClaim w.db id workerId leaseSeconds now).1, clock := now }
  /-- A worker creates runs for the records it has claimed only. -/
  | createRun {w : AutomationWorld} {db : AutomationDb} {run : Option RunRow} (now startedAt : Time)
      (record : AutomationRecord) (scheduledFor : Time) (workerId : String) : w.clock < now →
      record ∈ w.claims → record.nextRunAt = some scheduledFor →
      record.claimedBy = some workerId →
      createRun w.db record.id scheduledFor startedAt now (some workerId) (some record.versionId) =
        .ok (db, run) → ServiceStep os w { w with db := db, clock := now }
  | finishRun {w : AutomationWorld} {db : AutomationDb} {closed : Bool} (now : Time) (runId : Nat)
      (report : RunReport) (workerId : Option String) : w.clock < now → report.status ≠ .running →
      finishRun os w.db w.db runId report workerId = .ok (db, closed) →
      ServiceStep os w { w with db := db, clock := now }

end Yuki

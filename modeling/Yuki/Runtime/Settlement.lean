import Yuki.Runtime.Mailbox

/-! The single writer of Work states: what the mailbox, owned execution and an
ended wait make of a proposed state, and what its commit brings with it. -/

namespace Yuki

namespace Sql.Value

/-- What the driver hands to Python. -/
def toJson : Value → Json
  | null => .null
  | int n => .int n
  | real m e => .real m e
  | text s => .str s

end Sql.Value

/-- Whether an SQL value is this text. -/
def isText (v : Sql.Value) (s : String) : Bool :=
  (v.eq (.text s)).holds

namespace WorkRepository

/-- A run in the sandbox that still waits for its Work and is not only observed. -/
def ownedRun (db : Db) (identity : String) (task : SandboxTaskRunRow) : Bool :=
  (match Sql.jsonExtract task.sourceJson ["work_id"] with
    | .text id => db.isDescendant identity true id
    | _ => false) &&
  task.status == "waiting" && task.runId.isSome &&
  !isText ((Sql.jsonExtract task.progressJson ["ownership"]).coalesce (.text "owned")) "observe"

/-- A worker below `identity` that runs under a lease. -/
def ownedWorker (db : Db) (now : Time) (identity : String) (c : ChildRow) : Bool :=
  db.isDescendant identity true c.workId && c.workId != identity && c.owner.isSome &&
    decide (now < c.leaseUntil) && (db.works.get? c.workId).any fun w => !w.state.terminal

/-- `_owned_execution_clause`. -/
def ownedExecution (db : Db) (now : Time) (identity : String) : Bool :=
  db.taskRuns.rows.any (ownedRun db identity) ||
    db.children.rows.any (ownedWorker db now identity)

/-- The rows a settlement looks at: every kind while an input is being prepared. -/
def awaited (identity : String) (reason : Option String) (i : InputRow) : Bool :=
  i.workId == some identity && i.live && (reason == some "work_input_preparing" || i.business)

/-- The first row of the mailbox: whether it is ready. -/
def mailbox (db : Db) (identity : String) (reason : Option String) : Option Bool :=
  ((db.inputs.rows.filter (awaited identity reason)).mergeSort fun i j => i.id ≤ j.id).head?.map
    InputRow.ready

/-- `accepted_control` in a checkpoint. -/
def acceptedControl (checkpoint : Json) (member : String) : Sql.Value :=
  Sql.jsonExtract checkpoint ["accepted_control", member]

/-- The accepted decision of a Work is this wait. -/
def acceptedWait (checkpoint : Json) (w : WaitRow) : Bool :=
  isText (acceptedControl checkpoint "wait_id") w.id &&
    isText (acceptedControl checkpoint "action") "wait"

/-- The signal of the accepted wait stands unread in the mailbox. -/
def matchedSignal (db : Db) (identity : String) : Bool :=
  (db.works.get? identity).any fun row => db.waits.rows.any fun w =>
    w.workId == identity && acceptedWait row.checkpointJson w &&
      (w.status == .delivered || w.status == .expired) &&
      db.inputs.rows.any fun i =>
        i.sourceKey == "wait:" ++ w.id && i.workId == some identity && i.live && i.ready

/-- The values a settlement is about to commit. -/
structure Settling where
  state : WorkState
  reason : Option String
  exitReason : Option String
  businessArrived : Bool := false
  draining : Bool := false

namespace Settling

/-- `if exit_reason is not None`. -/
def exits (s : Settling) (exitReason : String) : Option String :=
  s.exitReason.map fun _ => exitReason

def atMailbox (db : Db) (identity : String) (s : Settling) : Settling :=
  if s.state ∈ [.completed, .failed, .waitingUser, .waitingExternal] then
    match mailbox db identity s.reason with
    | none =>
      if s.reason = some "work_input_preparing" then
        { s with state := .queued, reason := some "input_preparation_cleared",
                 exitReason := s.exits "waiting_input" }
      else s
    | some true =>
      { s with businessArrived := true, state := .queued, reason := some "work_input_arrived",
               exitReason := s.exits "waiting_input" }
    | some false =>
      { s with businessArrived := true, state := .waitingExternal,
               reason := some "work_input_preparing", exitReason := s.exits "waiting_external" }
  else s

def atDrain (db : Db) (now : Time) (identity : String) (s : Settling) : Settling :=
  if s.state = .completed ∧ ownedExecution db now identity then
    { s with draining := true, state := .waitingExternal,
             reason := some "work_owned_execution_pending",
             exitReason := s.exits "waiting_external" }
  else s

def atSignal (db : Db) (identity : String) (goal : Option String) (s : Settling) : Settling :=
  if s.state = .waitingExternal ∧ s.businessArrived = false ∧ goal = none ∧
      matchedSignal db identity then
    { s with state := .queued, reason := some "work_wait_delivered",
             exitReason := s.exits "waiting_input" }
  else s

/-- Whether the accepted decision is dropped from the checkpoint. -/
def retiresControl (s : Settling) : Bool :=
  s.state != .running && !s.draining && s.reason != some "work_input_preparing" &&
    !(s.state == .queued && s.exitReason == some "segment_budget")

end Settling

/-- What a proposed state settles to. -/
def settling (db : Db) (now : Time) (identity : String) (state : WorkState)
    (reason goal exitReason : Option String) : Settling :=
  ((Settling.atMailbox db identity ⟨state, reason, exitReason, false, false⟩).atDrain db now
    identity).atSignal db identity goal

/-- A text of the accepted decision moves to the checkpoint itself. -/
def carryControl (checkpoint : Json) (member target : String) : Json :=
  let removed := Sql.jsonRemove checkpoint ["accepted_control"]
  if isText (Sql.jsonType checkpoint ["accepted_control", member]) "text" then
    Sql.jsonSet removed [target] (acceptedControl checkpoint member).toJson
  else removed

/-- The accepted wait is still active. -/
def heldWait (db : Db) (w : WorkRow) : Bool :=
  db.waits.rows.any fun v =>
    v.workId == w.id && v.status == .active && acceptedWait w.checkpointJson v

def settledCheckpoint (db : Db) (s : Settling) (goal : Option String) (w : WorkRow) : Json :=
  if s.retiresControl = false then w.checkpointJson
  else match s.state with
    | .completed => carryControl w.checkpointJson "result" "sync_result"
    | .failed | .waitingUser => carryControl w.checkpointJson "reason" "reason"
    | .waitingExternal =>
      if s.businessArrived = false ∧ goal = none ∧ heldWait db w then w.checkpointJson
      else Sql.jsonRemove w.checkpointJson ["accepted_control"]
    | _ => Sql.jsonRemove w.checkpointJson ["accepted_control"]

def settledRow (db : Db) (now : Time) (s : Settling) (goal : Option String) (w : WorkRow) :
    WorkRow :=
  { w with state := s.state, reason := s.reason, revision := w.revision + 1, updated := now,
           goal := goal.getD w.goal, checkpointJson := settledCheckpoint db s goal w }

theorem settledRow_id (db : Db) (now : Time) (s : Settling) (goal : Option String) (w : WorkRow) :
    (settledRow db now s goal w).id = w.id := rfl

def writeSettled (db : Db) (now : Time) (identity : String) (s : Settling) (goal : Option String) :
    Db :=
  { db with
    works := db.works.update (fun w => w.id = identity) (settledRow db now s goal)
      (settledRow_id db now s goal) }

/-- The facts a recovery keeps about a failed activation. -/
structure RecoveryDetail where
  activationId : String
  exitReason : String
  stage : String
  failureJson : Json
  attempts : Int
  notBefore : Time
  updated : Time

/-- The exits that clear the record of earlier failures. -/
def clearingExits : List String :=
  ["segment_budget", "completed", "waiting_input", "waiting_external"]

/-- `runtime_work_recovery` after an activation's exit. -/
def recordExit (db : Db) (now : Time) (lease : WorkLease) (identity : String) :
    Option String → Option RecoveryDetail → Db
  | exitReason, some d =>
    let row : RecoveryRow :=
      ⟨identity, d.activationId, exitReason.getD d.exitReason, d.stage, d.failureJson, d.attempts,
        d.notBefore, d.updated⟩
    { db with
      recovery := db.recovery.upsert row (fun _ => true) fun r =>
        { r with activationId := row.activationId, exitReason := row.exitReason,
                 stage := row.stage, failureJson := row.failureJson, attempts := row.attempts,
                 notBefore := row.notBefore, updated := row.updated } }
  | some exitReason, none =>
    let clears := clearingExits.contains exitReason
    { db with
      recovery := db.recovery.upsert
        ⟨identity, lease.owner, exitReason, "activation", .obj [], 0, 0, now⟩ (fun _ => true)
        fun r =>
        { r with activationId := lease.owner, exitReason := exitReason, stage := "activation",
                 notBefore := 0, updated := now,
                 attempts := if clears then 0 else r.attempts,
                 failureJson := if clears then .obj [] else r.failureJson } }
  | none, none => db

/-- The completion input of a plain business child. -/
def resultInput (row : WorkRow) (parentId : String) (now : Time) : InputRow where
  id := 0
  conversationId := row.conversationId
  generation := row.generation
  sourceKey := "work-result:" ++ row.id ++ ":" ++ toString row.revision
  workId := some parentId
  kind := "completion"
  payload := .doc (.obj [("text", .str (Json.sortKeys (.obj [("work_id", .str row.id),
    ("state", .str row.state.name), ("reason", (row.reason.map .str).getD .null),
    ("result", (Sql.jsonExtract row.checkpointJson ["sync_result"]).toJson)])).dumps)])
  created := now

/-- A finished child that is no worker reports to its parent's mailbox. -/
def reportResult (db : Db) (now : Time) (row : WorkRow) : Db :=
  match row.parentWorkId with
  | none => db
  | some parentId =>
    if row.state.terminal && (db.children.get? row.id).isNone then
      (db.insertInput (resultInput row parentId now)).1.wakeWaiting now fun w => w.id == parentId
    else db

/-- The row `commit_state` may write. -/
def committable (lease : WorkLease) (identity : String) (revision : Option Int) (w : WorkRow) :
    Bool :=
  w.id == identity && w.conversationId == lease.conversationId &&
    w.generation == lease.generation && !w.state.terminal && revision.all (· == w.revision)

/-- What a settlement writes beside the report to the parent. -/
def settle (db : Db) (now : Time) (lease : WorkLease) (identity : String) (s : Settling)
    (reason goal : Option String) (detail : Option RecoveryDetail) : Db :=
  let written := writeSettled db now identity s goal
  let stopped :=
    if (s.state = .failed ∨ s.state = .cancelled) ∧ s.businessArrived = false then
      stopOwnedExecution written now identity reason
    else written
  let recorded := recordExit stopped now lease identity s.exitReason detail
  if s.state.terminal ∨ goal ≠ none then recorded.cancelActiveWaits now identity else recorded

/-- `commit_state`, in the caller's transaction. -/
def commitState (db : Db) (now : Time) (lease : WorkLease) (identity : String) (state : WorkState)
    (revision : Option Int) (reason goal exitReason : Option String)
    (recoveryDetail : Option RecoveryDetail) : Except Err (Db × WorkRow) := do
  let s := settling db now identity state reason goal exitReason
  let before ← expect ((db.works.get? identity).filter (committable lease identity revision))
    (.workConflict "work_revision_conflict")
  let row := settledRow db now s goal before
  let settled := settle db now lease identity s reason goal recoveryDetail
  return (reportResult settled now row, row)

@[simp] theorem recordExit_works (db : Db) (now : Time) (lease : WorkLease) (identity : String)
    (exitReason : Option String) (detail : Option RecoveryDetail) :
    (recordExit db now lease identity exitReason detail).works = db.works := by
  cases exitReason <;> cases detail <;> rfl

@[simp] theorem recordExit_inputs (db : Db) (now : Time) (lease : WorkLease) (identity : String)
    (exitReason : Option String) (detail : Option RecoveryDetail) :
    (recordExit db now lease identity exitReason detail).inputs = db.inputs := by
  cases exitReason <;> cases detail <;> rfl

@[simp] theorem recordExit_waits (db : Db) (now : Time) (lease : WorkLease) (identity : String)
    (exitReason : Option String) (detail : Option RecoveryDetail) :
    (recordExit db now lease identity exitReason detail).waits = db.waits := by
  cases exitReason <;> cases detail <;> rfl

@[simp] theorem recordExit_children (db : Db) (now : Time) (lease : WorkLease) (identity : String)
    (exitReason : Option String) (detail : Option RecoveryDetail) :
    (recordExit db now lease identity exitReason detail).children = db.children := by
  cases exitReason <;> cases detail <;> rfl

/-- A settlement replaces one unfinished row of its lease's conversation. -/
theorem commitState_cases {db db' : Db} {now : Time} {lease : WorkLease} {identity : String}
    {state : WorkState} {revision : Option Int} {reason goal exitReason : Option String}
    {detail : Option RecoveryDetail} {row : WorkRow}
    (h : commitState db now lease identity state revision reason goal exitReason detail =
      .ok (db', row)) :
    ∃ before, db.works.get? identity = some before ∧
      committable lease identity revision before = true ∧
      row = settledRow db now (settling db now identity state reason goal exitReason) goal before ∧
      db' = reportResult (settle db now lease identity
        (settling db now identity state reason goal exitReason) reason goal detail) now row := by
  simp only [commitState, bind_eq_ok, expect_eq_ok, pure_eq_ok] at h
  obtain ⟨before, hb, h⟩ := h
  obtain ⟨hget, hc⟩ := Option.filter_eq_some_iff.mp hb
  obtain ⟨rfl, rfl⟩ := Prod.mk.inj h
  exact ⟨before, hget, hc, rfl, rfl⟩

/-- A stopped subtree keeps its root as it was. -/
theorem stopOwnedExecution_root {db : Db} (now : Time) (reason : Option String) {w : WorkRow}
    {id : String} (h : db.works.get? id = some w) :
    (stopOwnedExecution db now id reason).works.get? id = some w := by
  have hid := Table.get?_key h
  simp [stopOwnedExecution, h, hid]

/-- The row a settlement leaves behind. -/
theorem settle_row {db : Db} {identity : String} {before : WorkRow}
    (h : db.works.get? identity = some before) (now : Time) (lease : WorkLease) (s : Settling)
    (reason goal : Option String) (detail : Option RecoveryDetail) :
    (settle db now lease identity s reason goal detail).works.get? identity =
      some (settledRow db now s goal before) := by
  have hwritten : (writeSettled db now identity s goal).works.get? identity =
      some (settledRow db now s goal before) := by
    have hid := Table.get?_key h
    rw [writeSettled, Table.get?_update, h, Option.map_some, if_pos (by simp [hid])]
  have hstopped := stopOwnedExecution_root now reason hwritten
  unfold settle
  dsimp only
  split <;> split <;> simp only [Db.cancelActiveWaits, recordExit_works, hwritten, hstopped]

/-- The mailbox of a settlement: untouched, or cut off with the subtree. -/
theorem settle_inputs (db : Db) (now : Time) (lease : WorkLease) (identity : String) (s : Settling)
    (reason goal : Option String) (detail : Option RecoveryDetail) :
    (settle db now lease identity s reason goal detail).inputs =
      if (s.state = .failed ∨ s.state = .cancelled) ∧ s.businessArrived = false then
        (stopOwnedExecution (writeSettled db now identity s goal) now identity reason).inputs
      else db.inputs := by
  unfold settle
  dsimp only
  split <;> split <;> simp only [Db.cancelActiveWaits, recordExit_inputs] <;> rfl

theorem mailbox_eq_none {db : Db} {identity : String} {reason : Option String}
    (h : mailbox db identity reason = none) :
    ∀ i ∈ db.inputs.rows, awaited identity reason i = false := by
  intro i hi
  simp only [mailbox, Option.map_eq_none_iff, List.head?_eq_none_iff] at h
  by_contra ha
  have hmem : i ∈ (db.inputs.rows.filter (awaited identity reason)).mergeSort
      fun i j => decide (i.id ≤ j.id) :=
    List.mem_mergeSort.mpr (List.mem_filter.mpr ⟨hi, by simpa using ha⟩)
  rw [h] at hmem
  simp at hmem

theorem mailbox_eq_some {db : Db} {identity : String} {reason : Option String} {r : Bool}
    (h : mailbox db identity reason = some r) :
    ∃ i ∈ db.inputs.rows, awaited identity reason i = true ∧ i.ready = r := by
  obtain ⟨i, hi, rfl⟩ := Option.map_eq_some_iff.mp h
  have hmem := List.mem_mergeSort.mp (List.mem_of_head? hi)
  obtain ⟨hrow, ha⟩ := List.mem_filter.mp hmem
  exact ⟨i, hrow, ha, rfl⟩

/-- A settlement parks a Work only over an input that is not ready. -/
theorem settling_parked {db : Db} {now : Time} {identity : String} {state : WorkState}
    {reason goal exitReason : Option String}
    (hs : (settling db now identity state reason goal exitReason).state = .waitingExternal)
    (hr : (settling db now identity state reason goal exitReason).reason =
      some "work_input_preparing") : mailbox db identity reason = some false := by
  simp only [settling, Settling.atSignal] at hs hr
  split at hs
  · simp at hs
  rename_i hsig
  rw [if_neg hsig] at hr
  simp only [Settling.atDrain] at hs hr
  split at hs
  · rename_i hd
    rw [if_pos hd] at hr
    simp at hr
  rename_i hd
  rw [if_neg hd] at hr
  simp only [Settling.atMailbox] at hs hr
  split at hs
  · rename_i hmem
    rw [if_pos hmem] at hr
    cases hm : mailbox db identity reason with
    | none =>
      simp only [hm] at hs hr
      split at hs
      · simp at hs
      · rename_i hne
        rw [if_neg hne] at hr
        exact absurd hr hne
    | some ready =>
      cases ready with
      | true => simp [hm] at hs
      | false => rfl
  · rename_i hmem
    exact absurd (by simp [show state = .waitingExternal from hs]) hmem

/-- A settlement finishes a Work, or leaves it to the user, only with an empty mailbox. -/
theorem settling_finished {db : Db} {now : Time} {identity : String} {state : WorkState}
    {reason goal exitReason : Option String}
    (hs : (settling db now identity state reason goal exitReason).state ∈
      [WorkState.completed, .failed, .waitingUser]) : mailbox db identity reason = none := by
  simp only [settling, Settling.atSignal] at hs
  split at hs
  · simp at hs
  simp only [Settling.atDrain] at hs
  split at hs
  · simp at hs
  simp only [Settling.atMailbox] at hs
  split at hs
  · cases hm : mailbox db identity reason with
    | none => rfl
    | some ready => cases ready <;> simp [hm] at hs
  · rename_i hmem
    refine absurd ?_ hmem
    exact List.mem_append_left [.waitingExternal] hs

/-- `transition`. -/
def transition (db : Db) (now : Time) (lease : WorkLease) (identity : String) (revision : Int)
    (state : WorkState) (reason goal exitReason : Option String) : Except Err (Db × WorkRow) := do
  require (goal.any blank = false) (.valueError "invalid_work_transition")
  assertLease db now lease
  commitState db now lease identity state (some revision) reason goal exitReason none

end WorkRepository

end Yuki

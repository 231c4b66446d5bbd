import Mathlib.Algebra.GroupWithZero.Nat
import Yuki.Runtime.Waits

/-! The poll for due waits: what it prepares outside the writer, and how the writer
proves the rows it was prepared from. -/

namespace Yuki

/-- A row of `_owned_runs_query`: a run of a Work's own, in the tree or in the sandbox. -/
structure OwnedRun where
  ownerId : String
  runId : String
  state : String
  completionJson : Option Json
  sandbox : Bool
deriving DecidableEq

/-- What the reader of a poll selected. -/
structure PreparedDue where
  bindings : List DueRow := []
  runs : List OwnedRun := []
  states : List ((String × String) × RunState) := []

/-- `d[k] = v` on a dictionary kept as a list. -/
def putKey {κ ν : Type} [DecidableEq κ] (key : ν → κ) (v : ν) : List ν → List ν
  | [] => [v]
  | w :: ws => if key w = key v then v :: ws else w :: putKey key v ws

namespace WorkWaitRepository

/-- The open owned runs of one wait. -/
def openRuns (row : DueRow) : List (String × String) :=
  row.conditions.filterMap fun c =>
    match c.kind, c.matched with
    | .ownedRun run, none => some (row.binding.workId, run)
    | _, _ => none

/-- `_requested_runs`. -/
def requestedRuns (rows : List DueRow) : List (String × String) :=
  (rows.flatMap openRuns).eraseDups

/-- The Works below the owner. -/
def ownedWork (db : Db) (requested : List (String × String)) : List OwnedRun :=
  requested.filterMap fun (owner, run) =>
    match db.works.get? run with
    | some w =>
      if (db.ancestors run false).contains owner then some ⟨owner, run, w.state.name, none, false⟩
      else none
    | none => none

/-- The sandbox runs of the owner and of the Works below it. -/
def ownedSandbox (db : Db) (requested : List (String × String)) : List OwnedRun :=
  requested.flatMap fun (owner, run) => db.taskRuns.rows.filterMap fun task =>
    match Sql.jsonExtract task.sourceJson ["work_id"] with
    | .text workId =>
      if task.runId == some run && (db.ancestors workId true).contains owner then
        some ⟨owner, run, task.status, task.completionJson, true⟩
      else none
    | _ => none

/-- `_owned_runs_query`. -/
def ownedRuns (db : Db) (requested : List (String × String)) : List OwnedRun :=
  ownedWork db requested ++ ownedSandbox db requested

/-- The state of one sandbox run, read from its receipt once it completed. -/
def sandboxState (run : OwnedRun) : RunState :=
  match run.completionJson with
  | some receipt =>
    if run.state = "completed" then
      { status := receipt.getD "operation_status" (receipt.getD "status" (.str run.state))
        operationStatus := receipt.get? "operation_status"
        nativeStatus := receipt.get? "native_status"
        nativePending := receipt.get? "native_pending" }
    else { status := .str run.state }
  | none => { status := .str run.state }

/-- `_run_states`: a Work's own state comes before that of a sandbox run of the same id. -/
def runStates (runs : List OwnedRun) : List ((String × String) × RunState) :=
  let works := runs.filter fun r => !r.sandbox
  let sandboxes := runs.filter fun r => r.sandbox
  works.map (fun r => ((r.ownerId, r.runId), { status := .str r.state })) ++
    sandboxes.map fun r => ((r.ownerId, r.runId), sandboxState r)

/-- The statuses in which an owned run has ended or cannot be followed any more. -/
def endedStatuses : List String :=
  ["completed", "succeeded", "failed", "cancelled", "detached", "uncertain", "unknown"]

/-- What a poll makes of one condition. -/
def observeCondition (workId : String) (states : List ((String × String) × RunState)) (now : Time)
    (c : Condition) : Condition :=
  match c.matched, c.kind with
  | some _, _ => c
  | none, .timeDue due => if due ≤ now then { c with matched := some (.timeDue due now) } else c
  | none, .ownedRun run =>
    match states.lookup (workId, run) with
    | some state =>
      if endedStatuses.any fun s => state.status == .str s then
        { c with matched := some (.ownedRun run state) }
      else c
    | none => c
  | none, _ => c

inductive Observation
  | invalidated
  | partially (conditions : List Condition)
  | due (conditions : List Condition) (reason : SignalReason)
deriving DecidableEq

def expiredAt (deadline : Option Time) (now : Time) : Bool :=
  deadline.any fun d => decide (d ≤ now)

/-- `_observe_due` on the prepared conditions of a wait. -/
def observeDue (row : DueRow) (conditions : List Condition)
    (states : List ((String × String) × RunState)) (now : Time) : Option Observation :=
  if row.original.alive row.binding.generation = false ∨ row.original.state = none then
    some .invalidated
  else
    let kept := conditions.map Condition.dropText
    let observed := kept.map (observeCondition row.binding.workId states now)
    if row.mode.met observed then some (.due observed .signal)
    else if expiredAt row.deadline now then some (.due observed .deadline)
    else if observed ≠ kept then some (.partially observed)
    else none

/-- One wait of a page joins the prepared ones, with the runs of its Work. -/
def selectDue (pageRuns : List OwnedRun) (observedAt : Time) (p : PreparedDue) (row : DueRow) :
    PreparedDue :=
  let states := runStates pageRuns
  if p.bindings.length = 128 ∨ observeDue row row.conditions states observedAt = none then p
  else
    let own := pageRuns.filter fun r => r.ownerId == row.binding.workId
    { bindings := putKey (fun r => r.binding.id) row p.bindings
      runs := own.foldl (fun rs r => putKey (fun r => (r.ownerId, r.runId, r.sandbox)) r rs) p.runs
      states := own.foldl (fun ss r =>
        match states.lookup (r.ownerId, r.runId) with
        | some s => putKey Prod.fst ((r.ownerId, r.runId), s) ss
        | none => ss) p.states }

/-- `(created, id) > cursor`. -/
def afterCursor (cursor : Option (Time × String)) (w : WaitRow) : Bool :=
  cursor.all fun (created, id) =>
    decide (created < w.created) || (decide (created = w.created) && decide (id < w.id))

/-- The reader of `deliver_due`: pages of 128 rows, each read with its runs from the snapshots
of its two statements. -/
def prepareDue (observedAt : Time) :
    List (Db × Db) → Option (Time × String) → PreparedDue → PreparedDue
  | [], _, p => p
  | (rowsAt, runsAt) :: views, cursor, p =>
    if 128 ≤ p.bindings.length then p
    else
      let rows := (rowsAt.dueRows (afterCursor cursor)).take 128
      let pageRuns := ownedRuns runsAt (requestedRuns rows)
      let selected := rows.foldl (selectDue pageRuns observedAt) p
      match rows.getLast? with
      | none => p
      | some last =>
        if rows.length < 128 then selected
        else prepareDue observedAt views (some (last.created, last.binding.id)) selected

/-- The pages of 32 in which the runs are compared. -/
def comparisonPages {α : Type} (fuel : Nat) (xs : List α) : List (List α) :=
  match fuel, xs with
  | 0, _ => []
  | _, [] => []
  | fuel + 1, xs => xs.take 32 :: comparisonPages fuel (xs.drop 32)

/-- `_owned_runs_current`: the runs stand as they were read. -/
def ownedRunsCurrent (current original : List OwnedRun) : Bool :=
  if original.isEmpty then current.isEmpty
  else current.length == original.length &&
    (comparisonPages original.length original).all fun page =>
      (page.map fun run => current.countP (· == run)).sum == page.length

/-- The fields of a wait compared before its observation is used. -/
def sameFields (row before : DueRow) : Bool :=
  row.binding.workId == before.binding.workId &&
    row.binding.conversationId == before.binding.conversationId &&
    row.binding.generation == before.binding.generation &&
    row.binding.principalKind == before.binding.principalKind &&
    row.binding.principalId == before.binding.principalId && row.mode == before.mode &&
    row.conditions == before.conditions && row.deadline == before.deadline

/-- The prepared row of a wait, while its fields are those of the row. -/
def preparedFor (p : PreparedDue) (row : DueRow) : Option DueRow :=
  (p.bindings.find? fun before => before.binding.id == row.binding.id).filter (sameFields row)

/-- One wait of the writer: the database, and how many signals were queued. -/
def pollWait (p : PreparedDue) (now : Time) (s : Db × Nat) (row : DueRow) : Db × Nat :=
  match preparedFor p row with
  | none => s
  | some before =>
    match observeDue row before.conditions p.states now with
    | none => s
    | some .invalidated => (s.1.invalidate now row.binding.id, s.2)
    | some (.partially conditions) =>
      (s.1.updateActive row.binding.id fun w => { w with conditions := conditions, updated := now },
        s.2)
    | some (.due conditions reason) =>
      let (db, entry) := deliver s.1 row.binding (some row.original) conditions reason now none
      (db, if entry.isSome then s.2 + 1 else s.2)

/-- The rows the writer of a poll looks at. -/
def polledRows (db : Db) (p : PreparedDue) : List DueRow :=
  db.dueRows fun w => p.bindings.any fun before => before.binding.id == w.id

/-- The writer of `deliver_due`. -/
def deliverPrepared (db : Db) (now : Time) (p : PreparedDue) : Db × Nat :=
  if p.bindings.isEmpty then (db, 0)
  else if ownedRunsCurrent (ownedRuns db (requestedRuns p.bindings)) p.runs = false then (db, 0)
  else (polledRows db p).foldl (pollWait p now) (db, 0)

/-- `deliver_due`. -/
def deliverDue (views : List (Db × Db)) (db : Db) (observedAt now : Time) : Db × Nat :=
  deliverPrepared db now (prepareDue observedAt views none {})

end WorkWaitRepository

end Yuki

import Yuki.Effects.Receipt

/-! Admission by the foreground controller, together with what its turn has used. -/

namespace Yuki

open Json

namespace WorkControl

/-- The members of the admission's result. -/
def admissionResult (admitted : WorkRow) (ending : Option String) : List (String × Json) :=
  [("work_id", .str admitted.id), ("state", .str admitted.state.name),
    ("revision", .int admitted.revision), ("ending_proposed", ofStr? ending)]

/-- The receipt of an admission that came by a tool call. -/
def admissionReceipt (admitted : WorkRow) (ending : Option String) (metadata : Json) :
    Except Err JsonText := do
  let result := admissionResult admitted ending
  let outcome : ToolExecutionResult :=
    { ok := true, data := .obj result, toolName := .str "task_control", providerId := "work_control" }
  let evidence ← executionEvidence outcome (.str "task_control") (.bool true) (.obj [])
  return ⟨.obj [("result", .str (Json.obj (("ok", .bool true) :: result)).dumps),
    ("outcome", evidence),
    ("invocation", (((metadata.set "owner_execution_id" (.str admitted.id)).set "dispatch_started"
      (.bool true)).set "budget_admitted" (.bool false)).set "revision" (.int 1))], false⟩

/-- The requests the turn has started, charged to a Work that has counted none. -/
def chargeStarted (db : Db) (admitted : WorkRow) (requestsStarted : Int) : Except Err Db :=
  if requestsStarted ≠ 0 ∧ admitted.modelRequests = 0 then do
    let charged ← charge db admitted.id requestsStarted 0
    return { charged with
      works := charged.works.update (fun w => w.id = admitted.id) fun w =>
        { w with modelRequests := requestsStarted } }
  else .ok db

/-- The effect row of the admission, already accepted. -/
def insertAdmission (db : Db) (admitted : WorkRow) (ending : Option String) (callKey : String) :
    Option Json → Except Err Db
  | none => .ok db
  | some metadata => do
    let receipt ← admissionReceipt admitted ending metadata
    require (callKey ∉ db.effects.rows.map EffectRow.effectKey ∧
        db.childClash callKey admitted.id receipt.value = false)
      (.runtime "IntegrityError")
    return { db with
      effects := db.effects.insert ⟨callKey, admitted.id, "tool", .accepted, receipt,
        admitted.created, admitted.updated⟩ }

/-- `WorkControl` on action `accept` without a current Work; `metadata` is the durable
metadata of the call, if there was one. -/
def accept (db : Db) (now : Time) (lease : WorkLease) (sourceKey : String) (source : Json)
    (args : Json) (requestsStarted : Int) (ending : Option String) (callKey : String)
    (metadata : Option Json) (fresh : String) : Except Err (Db × WorkRow) := do
  let goal ← expect (SubagentRepository.briefGoal args) (.valueError "work_goal_required")
  let accepted ← WorkRepository.acceptInSession db now lease
    { sourceKey := sourceKey, source := source, preparedSourceJson := source.sortKeys
      goal := goal } fresh
  let charged ← chargeStarted accepted.1 accepted.2 requestsStarted
  let counted := if requestsStarted ≠ 0 ∧ accepted.2.modelRequests = 0 then
    { accepted.2 with modelRequests := requestsStarted } else accepted.2
  let recorded ← insertAdmission charged counted ending callKey metadata
  return (recorded, counted)

end WorkControl

end Yuki

import Yuki.Runtime.Admission

/-! Accounting shared by a root task and all Work below it. -/

namespace Yuki

/-- Whether a budget row admits the charge; a limit is read only for what is charged. -/
def BudgetRow.admits (b : BudgetRow) (models tools : Int) : Bool :=
  (models == 0 || b.modelLimit.all fun limit => b.models + models ≤ limit) &&
    (tools == 0 || b.toolLimit.all fun limit => b.tools + tools ≤ limit)

/-- The budget row of a root, created from the root's own counters at the first charge. -/
def Db.openBudget (db : Db) (root : String) : Table BudgetRow.rootId :=
  match db.works.get? root with
  | some w => db.budgets.insert
      { rootId := root, models := w.modelRequests, tools := w.toolCalls }
  | none => db.budgets

/-- `charge`. -/
def charge (db : Db) (identity : String) (models tools : Int) : Except Err Db := do
  require (0 ≤ models ∧ 0 ≤ tools) (.valueError "invalid_work_budget_charge")
  if models = 0 ∧ tools = 0 then return db
  else do
    let root ← db.budgetRootId identity
    let budget ← expect ((db.openBudget root).get? root)
      (.workBudgetExceeded "work_total_budget_exhausted")
    require (budget.admits models tools) (.workBudgetExceeded "work_total_budget_exhausted")
    return { db with
      budgets := (db.openBudget root).update (fun b => b.rootId = root) fun b =>
        { b with models := b.models + models, tools := b.tools + tools } }

namespace WorkRepository

/-- The members of the former checkpoint that a replacement keeps, when they are objects. -/
def retain (previous replacement : Json) : Json :=
  ["context_note", "accepted_control"].foldl (fun j name =>
    match previous.get? name with
    | some (.obj fs) => Sql.jsonSet j [name] (.obj fs)
    | _ => j) replacement

def checkpointReplacement (previous : Json) (payload : Option Json) : Json :=
  Sql.jsonRemove (match payload with
    | some value => retain previous value.sortKeys
    | none => previous) ["communication"]

/-- `checkpoint`: stores progress and accounts for what it used. -/
def checkpoint (db : Db) (now : Time) (lease : WorkLease) (identity : String)
    (payload : Option Json) (models tools messages : Int) : Except Err (Db × Unit) := do
  require (0 ≤ models ∧ 0 ≤ tools ∧ 0 ≤ messages) (.valueError "invalid_work_usage")
  assertLease db now lease
  let charged ← onlyIf (models ≠ 0 ∨ tools ≠ 0) db (charge db identity models tools)
  let row ← expect (leased charged lease identity) (.workConflict "work_checkpoint_obsolete")
  require (row.state.terminal = false) (.workConflict "work_checkpoint_obsolete")
  return ({ charged with
    works := charged.works.update (fun w => w.id = identity) fun w =>
      { w with checkpointJson := checkpointReplacement w.checkpointJson payload, updated := now,
               modelRequests := w.modelRequests + models, toolCalls := w.toolCalls + tools,
               sentMessages := w.sentMessages + messages } }, ())

end WorkRepository

theorem get?_openBudget (db : Db) (root r : String) :
    (db.openBudget root).get? r = (db.budgets.get? r).or (if root = r then
      (db.works.get? root).map fun w =>
        { rootId := root, models := w.modelRequests, tools := w.toolCalls } else none) := by
  unfold Db.openBudget
  cases h : db.works.get? root with
  | none => simp
  | some w => simp [Table.get?_insert]

/-- What a successful charge does: nothing, or one addition to the budget row of
the root above `identity`, within that row's limits. -/
theorem charge_cases {db db' : Db} {identity : String} {models tools : Int}
    (h : charge db identity models tools = .ok db') :
    0 ≤ models ∧ 0 ≤ tools ∧
      ((models = 0 ∧ tools = 0 ∧ db' = db) ∨
        ∃ root b, db.budgetRootId identity = .ok root ∧
          (db.openBudget root).get? root = some b ∧ b.admits models tools = true ∧
          db' = { db with
            budgets := (db.openBudget root).update (fun b => b.rootId = root) fun b =>
              { b with models := b.models + models, tools := b.tools + tools } }) := by
  obtain ⟨_, hr, h⟩ := bind_eq_ok.mp h
  obtain ⟨hm, ht⟩ := require_eq_ok.mp hr
  refine ⟨hm, ht, ?_⟩
  split at h
  · rename_i hz
    exact .inl ⟨hz.1, hz.2, (pure_eq_ok.mp h).symm⟩
  · obtain ⟨root, hroot, h⟩ := bind_eq_ok.mp h
    obtain ⟨b, hb, h⟩ := bind_eq_ok.mp h
    obtain ⟨_, ha, h⟩ := bind_eq_ok.mp h
    exact .inr ⟨root, b, hroot, expect_eq_ok.mp hb, require_eq_ok.mp ha, (pure_eq_ok.mp h).symm⟩

end Yuki

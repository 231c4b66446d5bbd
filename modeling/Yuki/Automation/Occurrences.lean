import Yuki.Lib.Transition
import Yuki.Automation.Repository

/-! Every occurrence of an automation runs at most once, and its runs are counted exactly. -/

namespace Yuki

open AutomationRepository

/-- The writing sessions of the repository; `seen` is what an earlier reader saw. -/
inductive AutomationOp
  | create (definition : PreparedTaskDefinition) (creator : String) (maxRuns : Option Int)
      (nextRunAt : Time) (creationSourceKey : Option String)
  | setStatus (id : Nat) (creator : String) (status : AutomationStatus)
  | cancel (id : Nat) (creator : String)
  | resume (id : Nat) (creator : String) (nextRunAt : Time)
  | scheduleNow (id : Nat) (creator : String)
  | publishTask (id : Nat) (creator : String) (definition : PreparedTaskDefinition)
      (nextRunAt : Option Time) (maxRuns : Option (Option Int))
  | claimDue (workerId : String) (enabled : Bool) (timestamp leaseSeconds : Time)
      (candidates : List Nat)
  | releaseClaim (id : Nat) (workerId : String) (notBefore : Option Time)
  | renewClaim (id : Nat) (workerId : String) (leaseSeconds : Time)
  | createRun (id : Nat) (scheduledFor startedAt : Time) (workerId : String)
      (versionId : Option Nat)
  | finishRun (seen : AutomationDb) (runId : Nat) (report : RunReport) (workerId : Option String)
  | settleInterrupted (seen : AutomationDb) (run : RunRow) (errorCategory : String)
  | settleWork (seen : AutomationDb) (run : RunRow) (work : WorkRow)

/-- What a session did to the runs, or that it cancelled an automation. -/
inductive AutomationEvent
  | none
  | created (run : RunRow)
  | closed (runId : Nat)
  | cancelled (id : Nat)
deriving DecidableEq

namespace AutomationOp

def closing (runId : Nat) (r : AutomationDb × Bool) : AutomationDb × AutomationEvent :=
  (r.1, if r.2 then .closed runId else .none)

/-- The session of an operation at time `now`. -/
def exec (os : Platform) (db : AutomationDb) (now : Time) :
    AutomationOp → Except Err (AutomationDb × AutomationEvent)
  | create definition creator maxRuns nextRunAt key =>
    (AutomationRepository.create db definition creator maxRuns nextRunAt now key).map
      fun r => (r.1, .none)
  | setStatus id creator status =>
    .ok ((AutomationRepository.setStatus db id creator status now).1, .none)
  | cancel id creator =>
    let r := AutomationRepository.cancel db id creator now
    .ok (r.1, if r.2 then .cancelled id else .none)
  | resume id creator next => .ok ((AutomationRepository.resume db id creator next now).1, .none)
  | scheduleNow id creator => .ok ((AutomationRepository.scheduleNow db id creator now).1, .none)
  | publishTask id creator definition next maxRuns =>
    .ok ((AutomationRepository.publishTask db id creator definition now next maxRuns).1, .none)
  | claimDue workerId enabled timestamp leaseSeconds candidates =>
    .ok ((AutomationRepository.claimDue db workerId enabled timestamp now leaseSeconds
      candidates).1, .none)
  | releaseClaim id workerId notBefore =>
    .ok (AutomationRepository.releaseClaim db id workerId notBefore, .none)
  | renewClaim id workerId leaseSeconds =>
    .ok ((AutomationRepository.renewClaim db id workerId leaseSeconds now).1, .none)
  | createRun id scheduledFor startedAt workerId versionId =>
    (AutomationRepository.createRun db id scheduledFor startedAt now (some workerId) versionId).map
      fun r => (r.1, r.2.elim .none .created)
  | finishRun seen runId report workerId =>
    (AutomationRepository.finishRun os seen db runId report workerId).map (closing runId)
  | settleInterrupted seen run category =>
    (AutomationRepository.finishRun os seen db run.id (interruptedReport run category now)
      Option.none).map (closing run.id)
  | settleWork seen run work =>
    match workReport work now with
    | some report =>
      (AutomationRepository.finishRun os seen db run.id report Option.none).map (closing run.id)
    | Option.none => .ok (db, .none)

/-- No caller of `finish_run` reports a run as still running. -/
def proper : AutomationOp → Prop
  | finishRun _ _ report _ => report.status ≠ .running
  | _ => True

end AutomationOp

/-- One session commits. A session that raises, and a reader's, change nothing. -/
inductive AutomationStep (os : Platform) : AutomationDb → AutomationEvent → AutomationDb → Prop
  | commit {db db' : AutomationDb} {op : AutomationOp} {now : Time} {e : AutomationEvent} :
    op.proper → op.exec os db now = .ok (db', e) → AutomationStep os db e db'

namespace AutomationDb

/-- The runs of an automation that have ended. -/
def endedCount (db : AutomationDb) (automationId : Nat) : Int :=
  (db.runs.rows.filter fun r => r.automationId == automationId && r.status != .running).length

/-- Runs belong to automations, no two share an occurrence, and the ended ones are counted. -/
structure Occurrences (db : AutomationDb) : Prop where
  owned : ∀ r ∈ db.runs.rows, ∃ row, db.automations.get? r.automationId = some row
  distinct : ∀ r ∈ db.runs.rows, ∀ r' ∈ db.runs.rows, r.automationId = r'.automationId →
    r.scheduledFor = r'.scheduledFor → r = r'
  counted : ∀ row ∈ db.automations.rows, row.runCount = db.endedCount row.id

end AutomationDb

/-- What an edit of an automation's row keeps. -/
structure Edit (f : AutomationRow → AutomationRow) : Prop where
  id : ∀ r, (f r).id = r.id
  runCount : ∀ r, (f r).runCount = r.runCount
  cancelled : ∀ r, r.status = .cancelled → (f r).status = .cancelled

/-- A session edits rows of automations, adds an automation, creates a run, or closes one. -/
inductive AutomationEffect (os : Platform) (db : AutomationDb) :
    AutomationEvent → AutomationDb → Prop
  | edited {e : AutomationEvent} {db' : AutomationDb} {f : AutomationRow → AutomationRow} : Edit f →
    db'.runs = db.runs → (∀ k, db'.automations.get? k = (db.automations.get? k).map f) →
    (e = .none ∨ ∃ id, e = .cancelled id ∧
      ∃ row, db'.automations.get? id = some row ∧ row.status = .cancelled) →
    AutomationEffect os db e db'
  | added {db' : AutomationDb} {row : AutomationRow} : row.runCount = 0 →
    row.id ∉ db.automations.rows.map AutomationRow.id → db'.runs = db.runs →
    db'.automations = db.automations.insert row → AutomationEffect os db .none db'
  | created {db' : AutomationDb} {run : RunRow} {owner : AutomationRow} :
    db.automations.get? run.automationId = some owner → owner.status = .active →
    (∀ limit, owner.maxRuns = some limit →
      owner.runCount + db.runningCount run.automationId < limit) →
    db.occurred run.automationId run.scheduledFor = false → run.status = .running →
    run.id = nextKey (db.runs.rows.map RunRow.id) → db'.automations = db.automations →
    db'.runs = db.runs.insert run → AutomationEffect os db (.created run) db'
  | closed {db' : AutomationDb} {run : RunRow} {report : RunReport} {next : Option Time} :
    db.runs.get? run.id = some run → run.status = .running → report.status ≠ .running →
    db'.runs.rows = db.runs.rows.map (fun r => if r.id == run.id then ended os r report else r) →
    (∀ k, db'.automations.get? k = (db.automations.get? k).map fun r =>
      if r.id == run.automationId then afterRun r run report.status report.finishedAt next else r) →
    AutomationEffect os db (.closed run.id) db'

theorem le_foldl_max (ids : List Nat) (n m : Nat) (h : m ≤ n ∨ m ∈ ids) : m ≤ ids.foldl max n := by
  induction ids generalizing n with
  | nil => simpa using h
  | cons id ids ih =>
    apply ih
    rcases h with h | h
    · exact .inl (le_trans h (le_max_left n id))
    · rcases List.mem_cons.mp h with rfl | h
      · exact .inl (le_max_right n m)
      · exact .inr h

theorem nextKey_fresh (ids : List Nat) : nextKey ids ∉ ids := by
  intro h
  have hle := le_foldl_max ids 0 _ (.inr h)
  unfold nextKey at hle
  omega

section

variable {os : Platform} {db db' : AutomationDb} {now : Time} {e : AutomationEvent}

theorem AutomationEffect.refl (db : AutomationDb) : AutomationEffect os db .none db := by
  have hid : Edit id := ⟨fun _ => rfl, fun _ => rfl, fun _ h => h⟩
  exact .edited hid rfl (fun k => by simp) (.inl rfl)

/-- An UPDATE of automations that keeps their counts is an edit. -/
theorem updateAutomations_effect {p : AutomationRow → Bool} {f : AutomationRow → AutomationRow}
    (hf : ∀ r, (f r).id = r.id) (hcount : ∀ r, (f r).runCount = r.runCount)
    (hcancel : ∀ r, p r = true → r.status = .cancelled → (f r).status = .cancelled) :
    AutomationEffect os db .none (db.updateAutomations p f hf).1 := by
  have hedit : Edit fun r => if p r then f r else r := by
    constructor <;> intro r
    · by_cases hp : p r = true <;> simp [hp, hf]
    · by_cases hp : p r = true <;> simp [hp, hcount]
    · intro hr
      by_cases hp : p r = true
      · rw [if_pos hp]
        exact hcancel r hp hr
      · rw [if_neg hp]
        exact hr
  exact .edited hedit rfl (Table.get?_update _ _ _ hf) (.inl rfl)

/-- What a worker's `create_run` can do: nothing, clear the occurrence, end the automation, or
create the run. -/
theorem createRun_cases {id : Nat} {scheduledFor startedAt : Time} {workerId : String}
    {versionId : Option Nat} {r : Option RunRow}
    (h : createRun db id scheduledFor startedAt now (some workerId) versionId = .ok (db', r)) :
    ∃ owner, db.automations.get? id = some owner ∧
      ((r = none ∧ db' = db) ∨
      mayCreate db owner scheduledFor now (some workerId) versionId = true ∧
        ((r = none ∧
          (∃ run ∈ db.runs.rows, run.automationId = id ∧ run.scheduledFor = scheduledFor ∧
            run.status ≠ .running) ∧ owner.nextRunAt = some scheduledFor ∧
          db' = (db.updateAutomations (fun r => r.id == id) fun r =>
            { r with nextRunAt := none }).1) ∨
        (r = none ∧ db' = (db.updateAutomations (fun r => r.id == id) fun r =>
          { r with status := .completed, nextRunAt := none }).1) ∨
        ∃ version : VersionRow, r = some (newRun db id version.id scheduledFor startedAt) ∧
          db.occurred id scheduledFor = false ∧
          (∀ limit, owner.maxRuns = some limit → owner.runCount + db.runningCount id < limit) ∧
          db' = { db with
            runs := db.runs.insert (newRun db id version.id scheduledFor startedAt) })) := by
  simp only [createRun, bind_eq_ok, expect_eq_ok] at h
  obtain ⟨owner, howner, h⟩ := h
  refine ⟨owner, howner, ?_⟩
  by_cases hmay : mayCreate db owner scheduledFor now (some workerId) versionId = false
  · rw [if_pos hmay] at h
    cases h
    exact .inl ⟨rfl, rfl⟩
  rw [if_neg hmay] at h
  rw [Bool.not_eq_false] at hmay
  split at h
  · next existing hfound =>
    split at h
    · next hend =>
      cases h
      have hkey := List.find?_some hfound
      simp only [Bool.and_eq_true, beq_iff_eq] at hkey
      have hmem := List.mem_of_find?_eq_some hfound
      exact .inr ⟨hmay, .inl ⟨rfl, ⟨existing, hmem, hkey.1, hkey.2, hend.1⟩, hend.2, rfl⟩⟩
    · cases h
      exact .inl ⟨rfl, rfl⟩
  · next hnone =>
    split at h
    · split at h
      · cases h
        exact .inr ⟨hmay, .inr (.inl ⟨rfl, rfl⟩)⟩
      · cases h
        exact .inl ⟨rfl, rfl⟩
    · next hlimit =>
      simp only [bind_eq_ok, pure_eq_ok, Prod.mk.injEq] at h
      obtain ⟨version, -, rfl, rfl⟩ := h
      refine .inr ⟨hmay, .inr (.inr ⟨version, rfl, ?_, fun limit hl => ?_, rfl⟩)⟩
      · simpa [AutomationDb.occurred] using hnone
      · simpa [hl] using hlimit

theorem mayCreate_active {owner : AutomationRow} {scheduledFor : Time} {workerId : String}
    {versionId : Option Nat}
    (h : mayCreate db owner scheduledFor now (some workerId) versionId = true) :
    owner.status = .active ∧ owner.nextRunAt = some scheduledFor := by
  simp only [mayCreate, Option.all_some, Bool.and_eq_true, beq_iff_eq] at h
  exact ⟨h.1.1.2, h.1.2⟩

theorem get?_update_one {t : Table AutomationRow.id} {id : Nat} {row : AutomationRow}
    (hrow : t.get? id = some row) {f g : AutomationRow → AutomationRow}
    (hf : ∀ r, (f r).id = r.id) (hfg : f row = g row) (hg : ∀ r, r.id ≠ id → g r = r) (k : Nat) :
    (t.update (fun r => r.id == id) f hf).get? k = (t.get? k).map g := by
  rw [Table.get?_update]
  cases hk : t.get? k with
  | none => rfl
  | some r =>
    have hid := Table.get?_key hk
    by_cases he : r.id = id
    · obtain rfl : r = row := by
        rw [← hid, he] at hk
        exact Option.some.inj (hk.symm.trans hrow)
      simp only [Option.map_some, he, beq_self_eq_true, if_true, hfg]
    · simp only [Option.map_some, beq_iff_eq, he, if_false, hg r he]

/-- An active automation's row may change in any way that keeps its count. -/
theorem updateActive_effect {id : Nat} {owner : AutomationRow}
    (howner : db.automations.get? id = some owner) (hactive : owner.status = .active)
    {f : AutomationRow → AutomationRow} (hf : ∀ r, (f r).id = r.id)
    (hcount : ∀ r, (f r).runCount = r.runCount) :
    AutomationEffect os db .none (db.updateAutomations (fun r => r.id == id) f hf).1 := by
  let g (r : AutomationRow) : AutomationRow := if r.id = id ∧ r.status = .active then f r else r
  have hfg : f owner = g owner := (if_pos ⟨Table.get?_key howner, hactive⟩).symm
  have hother (r : AutomationRow) (hr : r.id ≠ id) : g r = r := if_neg fun h => hr h.1
  have hedit : Edit g := by
    constructor <;> intro r
    · by_cases hp : r.id = id ∧ r.status = .active <;> simp [g, hp, hf]
    · by_cases hp : r.id = id ∧ r.status = .active <;> simp [g, hp, hcount]
    · intro hr
      have hn : g r = r := if_neg fun h => by simp [hr] at h
      rw [hn]
      exact hr
  exact .edited hedit rfl (get?_update_one howner hf hfg hother) (.inl rfl)

theorem cancel_effect (id : Nat) (creator : String) (now : Time) :
    AutomationEffect os db (if (cancel db id creator now).2 then .cancelled id else .none)
      (cancel db id creator now).1 := by
  let f (r : AutomationRow) : AutomationRow :=
    if r.id == id && ownerClause db creator r && r.status != .cancelled then
      { r with status := .cancelled, nextRunAt := none, updatedAt := now } else r
  have hedit : Edit f := by
    constructor <;> intro r
    · unfold f
      split <;> rfl
    · unfold f
      split <;> rfl
    · intro hr
      have hn : f r = r := if_neg (by simp [hr])
      rw [hn]
      exact hr
  have hget (k : Nat) : (cancel db id creator now).1.automations.get? k =
      (db.automations.get? k).map f := Table.get?_update _ _ _ (by intro; rfl) k
  refine .edited hedit rfl hget ?_
  by_cases hany : (cancel db id creator now).2 = true
  · rw [if_pos hany]
    obtain ⟨row, hrow, hp⟩ := List.any_eq_true.mp hany
    have hid : row.id = id := by
      simp only [Bool.and_eq_true, beq_iff_eq] at hp
      exact hp.1.1
    refine .inr ⟨id, rfl, f row, ?_, ?_⟩
    · rw [hget, ← hid, Table.mem_rows.mp hrow]
      rfl
    · unfold f
      rw [if_pos hp]
  · rw [if_neg hany]
    exact .inl rfl

theorem published_runCount (row : AutomationRow) (now : Time) (nextRunAt : Option Time)
    (maxRuns : Option (Option Int)) (running : Bool) :
    (published row now nextRunAt maxRuns running).runCount = row.runCount := by
  unfold published
  dsimp only
  split
  · rfl
  split <;> rfl

theorem publishTask_effect (id : Nat) (creator : String) (definition : PreparedTaskDefinition)
    (now : Time) (nextRunAt : Option Time) (maxRuns : Option (Option Int)) :
    AutomationEffect os db .none
      (publishTask db id creator definition now nextRunAt maxRuns).1 := by
  unfold publishTask
  split
  · exact .refl db
  · next row hrow =>
    dsimp only
    split
    · exact .refl db
    · next hopen =>
      have hget := (Option.filter_eq_some_iff.mp hrow).1
      let g (r : AutomationRow) : AutomationRow :=
        if r.id = id ∧ r.status ≠ .cancelled then
          published r now nextRunAt maxRuns (decide (db.runningCount id ≠ 0)) else r
      have hg : published row now nextRunAt maxRuns (decide (db.runningCount id ≠ 0)) = g row :=
        (if_pos ⟨Table.get?_key hget, fun h => hopen (.inl h)⟩).symm
      have hother (r : AutomationRow) (hr : r.id ≠ id) : g r = r := if_neg fun h => hr h.1
      have hedit : Edit g := by
        constructor <;> intro r
        · by_cases hp : r.id = id ∧ r.status ≠ .cancelled
          · simp only [g, if_pos hp, published_id]
          · simp only [g, if_neg hp]
        · by_cases hp : r.id = id ∧ r.status ≠ .cancelled
          · simp only [g, if_pos hp, published_runCount]
          · simp only [g, if_neg hp]
        · intro hr
          have hn : g r = r := if_neg fun h => h.2 hr
          rw [hn]
          exact hr
      have hid (r : AutomationRow) := published_id r now nextRunAt maxRuns
        (decide (db.runningCount id ≠ 0))
      exact .edited hedit rfl (get?_update_one hget hid hg hother) (.inl rfl)

theorem workReport_ended {w : WorkRow} {report : RunReport} (h : workReport w now = some report) :
    report.status ≠ .running := by
  unfold workReport at h
  dsimp only at h
  cases hstate : w.state <;> rw [hstate] at h <;> cases h <;> exact RunStatus.noConfusion

theorem createRun_effect {id : Nat} {scheduledFor startedAt : Time} {workerId : String}
    {versionId : Option Nat} {r : Option RunRow}
    (h : createRun db id scheduledFor startedAt now (some workerId) versionId = .ok (db', r)) :
    AutomationEffect os db (r.elim .none .created) db' := by
  obtain ⟨owner, howner, h⟩ := createRun_cases h
  rcases h with ⟨rfl, rfl⟩ | ⟨hmay, h⟩
  · exact .refl db'
  have hactive := (mayCreate_active hmay).1
  rcases h with ⟨rfl, -, -, rfl⟩ | ⟨rfl, rfl⟩ | ⟨version, rfl, hocc, hlimit, rfl⟩
  · exact updateActive_effect howner hactive _ fun _ => rfl
  · exact updateActive_effect howner hactive _ fun _ => rfl
  · exact .created howner hactive hlimit hocc rfl rfl rfl rfl

theorem afterRun_keeps (row : AutomationRow) (run : RunRow) (status : RunStatus) (timestamp : Time)
    (next : Option Time) : (afterRun row run status timestamp next).runCount = row.runCount + 1 ∧
      (row.status = .cancelled → (afterRun row run status timestamp next).status = .cancelled) := by
  unfold afterRun
  dsimp only
  split
  · exact ⟨rfl, fun h => h⟩
  · next hopen =>
    have hne : row.status ≠ .cancelled := fun h => hopen (.inl h)
    refine ⟨?_, fun h => absurd h hne⟩
    split
    · rfl
    split
    · split
      · rfl
      split
      · rfl
      split <;> rfl
    · rfl

/-- `finish_run` closes a running run, its worker's where one is named, or does nothing. -/
theorem finishRun_cases {seen : AutomationDb} {runId : Nat} {report : RunReport}
    {workerId : Option String} {closed : Bool}
    (h : finishRun os seen db runId report workerId = .ok (db', closed)) :
    ∃ next, nextScheduled os seen runId report.finishedAt = .ok next ∧
      ((db' = db ∧ closed = false ∧ ∀ run, db.runs.get? runId = some run →
          run.status = .running → ∃ worker, workerId = some worker ∧ ∀ row,
            db.automations.get? run.automationId = some row → row.claimedBy ≠ some worker) ∨
        ∃ run, db.runs.get? runId = some run ∧ run.status = .running ∧ run.id = runId ∧
          db' = closeRun os db run report next ∧ closed = true) := by
  simp only [finishRun, bind_eq_ok] at h
  obtain ⟨next, hnext, h⟩ := h
  refine ⟨next, hnext, ?_⟩
  split at h
  · next hnone =>
    cases h
    exact .inl ⟨rfl, rfl, fun run hrun => by simp [hnone] at hrun⟩
  next run hrun =>
  split at h
  · next hclosed =>
    cases h
    refine .inl ⟨rfl, rfl, fun run' hrun' hrunning => ?_⟩
    obtain rfl := Option.some.inj (hrun.symm.trans hrun')
    rcases hclosed with hn | howned
    · exact absurd hrunning hn
    · cases workerId with
      | none => simp at howned
      | some worker => exact ⟨worker, rfl, fun row hrow => by simpa [hrow] using howned⟩
  · next hopen =>
    cases h
    have hrunning : run.status = .running := by
      by_contra hn
      exact hopen (.inl hn)
    exact .inr ⟨run, hrun, hrunning, Table.get?_key hrun, rfl, rfl⟩

theorem finishRun_effect {seen : AutomationDb} {runId : Nat} {report : RunReport}
    {workerId : Option String} {closed : Bool} (hproper : report.status ≠ .running)
    (h : finishRun os seen db runId report workerId = .ok (db', closed)) :
    AutomationEffect os db (AutomationOp.closing runId (db', closed)).2 db' := by
  obtain ⟨next, -, ⟨rfl, rfl, -⟩ | ⟨run, hrun, hrunning, rfl, rfl, rfl⟩⟩ := finishRun_cases h
  · exact .refl db'
  · exact .closed hrun hrunning hproper rfl
      (Table.get?_update _ _ _ fun r => afterRun_id r run report.status report.finishedAt next)

/-- What every session does. -/
theorem AutomationStep.effect (h : AutomationStep os db e db') : AutomationEffect os db e db' := by
  obtain ⟨hproper, hexec⟩ := h
  rename_i op now
  cases op with
  | create definition creator maxRuns nextRunAt key =>
    obtain ⟨⟨t, row⟩, hc, he⟩ := map_eq_ok.mp hexec
    cases he
    unfold create at hc
    split at hc
    · split at hc
      · cases hc
      · cases hc
        exact .refl _
    · simp only [bind_eq_ok, require_eq_ok, pure_eq_ok, Prod.mk.injEq] at hc
      obtain ⟨_, -, _, -, _, -, rfl, rfl⟩ := hc
      exact .added rfl (nextKey_fresh _) rfl rfl
  | setStatus id creator status =>
    cases hexec
    refine updateAutomations_effect _ (fun _ => rfl) fun r hp hr => ?_
    simp [hr] at hp
  | cancel id creator =>
    cases hexec
    exact cancel_effect id creator now
  | resume id creator next =>
    cases hexec
    refine updateAutomations_effect _ (fun _ => rfl) fun r hp hr => ?_
    simp [hr] at hp
  | scheduleNow id creator =>
    cases hexec
    refine updateAutomations_effect _ (fun _ => rfl) fun r hp hr => ?_
    simp [hr] at hp
  | publishTask id creator definition next maxRuns =>
    cases hexec
    exact publishTask_effect id creator definition now next maxRuns
  | claimDue workerId enabled timestamp leaseSeconds candidates =>
    cases hexec
    exact updateAutomations_effect _ (fun _ => rfl) fun _ _ hr => hr
  | releaseClaim id workerId notBefore =>
    cases hexec
    exact updateAutomations_effect _ (fun _ => rfl) fun _ _ hr => hr
  | renewClaim id workerId leaseSeconds =>
    cases hexec
    exact updateAutomations_effect _ (fun _ => rfl) fun _ _ hr => hr
  | createRun id scheduledFor startedAt workerId versionId =>
    obtain ⟨⟨t, r⟩, hc, he⟩ := map_eq_ok.mp hexec
    cases he
    exact createRun_effect hc
  | finishRun seen runId report workerId =>
    obtain ⟨⟨t, r⟩, hc, he⟩ := map_eq_ok.mp hexec
    cases he
    exact finishRun_effect hproper hc
  | settleInterrupted seen run category =>
    obtain ⟨⟨t, r⟩, hc, he⟩ := map_eq_ok.mp hexec
    cases he
    exact finishRun_effect (by simp [interruptedReport]) hc
  | settleWork seen run work =>
    simp only [AutomationOp.exec] at hexec
    split at hexec
    · next report hreport =>
      obtain ⟨⟨t, r⟩, hc, he⟩ := map_eq_ok.mp hexec
      cases he
      exact finishRun_effect (workReport_ended hreport) hc
    · cases hexec
      exact .refl _

theorem rows_of_get? {f : AutomationRow → AutomationRow}
    (h : ∀ k, db'.automations.get? k = (db.automations.get? k).map f) {row : AutomationRow}
    (hrow : row ∈ db'.automations.rows) : ∃ old ∈ db.automations.rows, row = f old := by
  have hget := Table.mem_rows.mp hrow
  rw [h, Option.map_eq_some_iff] at hget
  obtain ⟨old, hold, he⟩ := hget
  exact ⟨old, Table.get?_mem hold, he.symm⟩

/-- Closing a run counts it once more for its automation alone. -/
theorem endedCount_closed {run : RunRow} {report : RunReport} (hrun : db.runs.get? run.id = some run)
    (hrunning : run.status = .running) (hproper : report.status ≠ .running)
    (hruns : db'.runs.rows = db.runs.rows.map fun r =>
      if r.id == run.id then ended os r report else r) (id : Nat) :
    db'.endedCount id = db.endedCount id + if id = run.automationId then 1 else 0 := by
  unfold AutomationDb.endedCount
  rw [hruns]
  have hmem := Table.get?_mem hrun
  have hnodup := db.runs.nodup
  generalize db.runs.rows = rows at hmem hnodup
  induction rows with
  | nil => simp at hmem
  | cons first rest ih =>
    rw [List.map_cons, List.nodup_cons] at hnodup
    rcases List.mem_cons.mp hmem with rfl | hmem
    · have hrest : rest.map (fun r => if r.id == run.id then ended os r report else r) = rest := by
        conv_rhs => rw [← List.map_id rest]
        apply List.map_congr_left
        intro r hr
        have hne : r.id ≠ run.id := fun he => hnodup.1 (List.mem_map.mpr ⟨r, hr, he⟩)
        simp [hne]
      rw [List.map_cons, hrest]
      by_cases hid : id = run.automationId
      · subst hid
        simp [ended, hrunning, hproper]
      · have hne : run.automationId ≠ id := fun he => hid he.symm
        simp [ended, hid, hne]
    · have hne : first.id ≠ run.id := fun he =>
        hnodup.1 (he ▸ List.mem_map.mpr ⟨run, hmem, rfl⟩)
      have hh := ih hmem hnodup.2
      simp only [List.map_cons, beq_iff_eq, hne, if_false, List.filter_cons] at hh ⊢
      split
      · simp only [List.length_cons, Nat.cast_add, Nat.cast_one]
        omega
      · exact hh

theorem runs_insert {run : RunRow} (hid : run.id = nextKey (db.runs.rows.map RunRow.id)) :
    (db.runs.insert run).rows = db.runs.rows ++ [run] := by
  have hfresh : run.id ∉ db.runs.rows.map RunRow.id := by
    rw [hid]
    exact nextKey_fresh _
  unfold Table.insert
  rw [dif_neg hfresh]

/-- The invariant of the runs, step by step. -/
theorem AutomationEffect.occurrences (h : AutomationEffect os db e db') (hdb : db.Occurrences) :
    db'.Occurrences := by
  obtain ⟨howned, hdistinct, hcounted⟩ := hdb
  cases h with
  | @edited _ _ f hf hruns hget _ =>
    have hcount (id : Nat) : db'.endedCount id = db.endedCount id := by
      simp only [AutomationDb.endedCount, hruns]
    refine ⟨fun r hr => ?_, fun r hr r' hr' => ?_, fun row hrow => ?_⟩
    · rw [hruns] at hr
      obtain ⟨row, hrow⟩ := howned r hr
      exact ⟨f row, by rw [hget, hrow, Option.map_some]⟩
    · rw [hruns] at hr hr'
      exact hdistinct r hr r' hr'
    · obtain ⟨old, hold, rfl⟩ := rows_of_get? hget hrow
      rw [hf.runCount, hf.id, hcount]
      exact hcounted old hold
  | @added _ new hzero hfresh hruns hins =>
    have hcount (id : Nat) : db'.endedCount id = db.endedCount id := by
      simp only [AutomationDb.endedCount, hruns]
    refine ⟨fun r hr => ?_, fun r hr r' hr' => ?_, fun row hrow => ?_⟩
    · rw [hruns] at hr
      obtain ⟨row, hrow⟩ := howned r hr
      exact ⟨row, by rw [hins]; exact Table.get?_insert_of_some hrow⟩
    · rw [hruns] at hr hr'
      exact hdistinct r hr r' hr'
    · rw [hins] at hrow
      rw [hcount]
      rcases Table.mem_insert.mp hrow with hold | ⟨rfl, -⟩
      · exact hcounted row hold
      · have hnone : db.runs.rows.filter (fun r => r.automationId == row.id &&
            r.status != .running) = [] := by
          rw [List.filter_eq_nil_iff]
          intro r hr hp
          obtain ⟨owner, howner⟩ := howned r hr
          simp only [Bool.and_eq_true, beq_iff_eq] at hp
          rw [hp.1] at howner
          exact hfresh (Table.get?_isSome.mp ⟨owner, howner⟩)
        rw [hzero, AutomationDb.endedCount, hnone]
        rfl
  | @created _ run owner howner hactive hlimit hocc hrunning hid hautos hruns =>
    have hrows : db'.runs.rows = db.runs.rows ++ [run] := by rw [hruns, runs_insert hid]
    have hnew (r : RunRow) (hr : r ∈ db.runs.rows) (ha : r.automationId = run.automationId)
        (ht : r.scheduledFor = run.scheduledFor) : False := by
      have hn := List.any_eq_false.mp hocc r hr
      simp [ha, ht] at hn
    refine ⟨fun r hr => ?_, fun r hr r' hr' ha ht => ?_, fun row hrow => ?_⟩
    · rw [hautos]
      rw [hrows, List.mem_append, List.mem_singleton] at hr
      rcases hr with hr | rfl
      · exact howned r hr
      · exact ⟨owner, howner⟩
    · rw [hrows, List.mem_append, List.mem_singleton] at hr hr'
      rcases hr with hr | rfl <;> rcases hr' with hr' | rfl
      · exact hdistinct r hr r' hr' ha ht
      · exact (hnew r hr ha ht).elim
      · exact (hnew r' hr' ha.symm ht.symm).elim
      · rfl
    · rw [hautos] at hrow
      rw [hcounted row hrow, AutomationDb.endedCount, AutomationDb.endedCount, hrows]
      simp [hrunning]
  | @closed _ run report next hrun hrunning hproper hruns hget =>
    have hcount := endedCount_closed hrun hrunning hproper hruns
    have hback (r : RunRow) (hr : r ∈ db'.runs.rows) : ∃ old ∈ db.runs.rows,
        r = (if old.id == run.id then ended os old report else old) := by
      rw [hruns] at hr
      obtain ⟨old, hold, he⟩ := List.mem_map.mp hr
      exact ⟨old, hold, he.symm⟩
    have hsame (r : RunRow) : (if r.id == run.id then ended os r report else r).automationId =
        r.automationId ∧ (if r.id == run.id then ended os r report else r).scheduledFor =
        r.scheduledFor := by
      split <;> exact ⟨rfl, rfl⟩
    refine ⟨fun r hr => ?_, fun r hr r' hr' ha ht => ?_, fun row hrow => ?_⟩
    · obtain ⟨old, hold, rfl⟩ := hback r hr
      obtain ⟨row, hrow⟩ := howned old hold
      rw [(hsame old).1, hget, hrow]
      exact ⟨_, rfl⟩
    · obtain ⟨old, hold, rfl⟩ := hback r hr
      obtain ⟨old', hold', rfl⟩ := hback r' hr'
      rw [(hsame old).1, (hsame old').1] at ha
      rw [(hsame old).2, (hsame old').2] at ht
      rw [hdistinct old hold old' hold' ha ht]
    · have hrow' := Table.mem_rows.mp hrow
      rw [hget, Option.map_eq_some_iff] at hrow'
      obtain ⟨old, hold, he⟩ := hrow'
      have hkey := Table.get?_key hold
      have hmem := Table.get?_mem hold
      by_cases hp : old.id = run.automationId
      · rw [if_pos (by simp [hp])] at he
        subst he
        rw [afterRun_id, (afterRun_keeps ..).1, hcount, if_pos hp, hcounted old hmem]
      · rw [if_neg (by simp [hp])] at he
        subst he
        rw [hcount, if_neg hp, add_zero]
        exact hcounted old hmem

theorem occurred_iff {id : Nat} {scheduled : Time} : db.occurred id scheduled = true ↔
    ∃ r ∈ db.runs.rows, r.automationId = id ∧ r.scheduledFor = scheduled := by
  simp [AutomationDb.occurred]

/-- Rows of runs stay, with the same occurrence. -/
theorem AutomationEffect.occurred (h : AutomationEffect os db e db') {id : Nat} {scheduled : Time}
    (ho : db.occurred id scheduled = true) : db'.occurred id scheduled = true := by
  obtain ⟨r, hr, ha, ht⟩ := occurred_iff.mp ho
  rw [occurred_iff]
  cases h with
  | edited _ hruns | added _ _ hruns => exact ⟨r, hruns ▸ hr, ha, ht⟩
  | created _ _ _ _ _ hid _ hruns =>
    refine ⟨r, ?_, ha, ht⟩
    rw [hruns, runs_insert hid]
    exact List.mem_append_left _ hr
  | closed _ _ _ hruns =>
    rw [hruns]
    refine ⟨_, List.mem_map.mpr ⟨r, hr, rfl⟩, ?_⟩
    split <;> exact ⟨ha, ht⟩

/-- A run that has ended. -/
def AutomationDb.closedRun (db : AutomationDb) (id : Nat) : Prop :=
  ∃ r, db.runs.get? id = some r ∧ r.status ≠ .running

theorem get?_closed {run : RunRow} {report : RunReport}
    (hruns : db'.runs.rows = db.runs.rows.map fun r =>
      if r.id == run.id then ended os r report else r) (id : Nat) :
    db'.runs.get? id = (db.runs.get? id).map fun r =>
      if r.id == run.id then ended os r report else r := by
  have heq : db'.runs = db.runs.update (fun r => r.id == run.id) fun r => ended os r report :=
    Table.eq_of_rows hruns
  rw [heq]
  exact Table.get?_update _ _ _ (by intro r; rfl) id

theorem AutomationEffect.closedRun (h : AutomationEffect os db e db') {id : Nat}
    (hc : db.closedRun id) : db'.closedRun id := by
  obtain ⟨r, hr, hs⟩ := hc
  cases h with
  | edited _ hruns | added _ _ hruns => exact ⟨r, hruns ▸ hr, hs⟩
  | created _ _ _ _ _ _ _ hruns =>
    rw [AutomationDb.closedRun, hruns]
    exact ⟨r, Table.get?_insert_of_some hr, hs⟩
  | closed hrun hrunning hproper hruns =>
    refine ⟨_, by rw [get?_closed hruns, hr, Option.map_some], ?_⟩
    split
    · exact hproper
    · exact hs

def AutomationDb.cancelledRow (db : AutomationDb) (id : Nat) : Prop :=
  ∃ row, db.automations.get? id = some row ∧ row.status = .cancelled

theorem AutomationEffect.cancelledRow (h : AutomationEffect os db e db') {id : Nat}
    (hc : db.cancelledRow id) : db'.cancelledRow id := by
  obtain ⟨row, hrow, hs⟩ := hc
  cases h with
  | edited hf _ hget => exact ⟨_, by rw [hget, hrow, Option.map_some], hf.cancelled row hs⟩
  | added _ _ _ hins => exact ⟨row, by rw [hins]; exact Table.get?_insert_of_some hrow, hs⟩
  | created _ _ _ _ _ _ hautos => exact ⟨row, hautos ▸ hrow, hs⟩
  | closed _ _ _ _ hget =>
    refine ⟨_, by rw [hget, hrow, Option.map_some], ?_⟩
    split
    · exact (afterRun_keeps ..).2 hs
    · exact hs

/-- A created run takes one of the runs its automation may still have. -/
theorem AutomationEffect.admitted {run : RunRow} (h : AutomationEffect os db (.created run) db') :
    ∀ row, db'.automations.get? run.automationId = some row → ∀ limit, row.maxRuns = some limit →
      row.runCount + db'.runningCount run.automationId ≤ limit := by
  intro row hrow limit hl
  cases h with
  | edited _ _ _ he =>
    rcases he with he | ⟨_, he, _⟩ <;> cases he
  | created howner _ hlimit _ hrunning hid hautos hruns =>
    rw [hautos] at hrow
    obtain rfl := Option.some.inj (howner.symm.trans hrow)
    have hcount : db'.runningCount run.automationId = db.runningCount run.automationId + 1 := by
      rw [AutomationDb.runningCount, AutomationDb.runningCount, hruns, runs_insert hid]
      simp [hrunning]
    have hlt := hlimit limit hl
    omega

end

/-- A run created for an occurrence. -/
def creates (id : Nat) (scheduled : Time) : AutomationEvent → Bool
  | .created run => run.automationId == id && run.scheduledFor == scheduled
  | _ => false

/-- A run created for an automation. -/
def createsFor (id : Nat) : AutomationEvent → Bool
  | .created run => run.automationId == id
  | _ => false

def closes (id : Nat) : AutomationEvent → Bool
  | .closed runId => runId == id
  | _ => false

section

variable {os : Platform} {s t : AutomationDb} {e : AutomationEvent}

theorem AutomationEffect.creates (h : AutomationEffect os s e t) {id : Nat} {scheduled : Time}
    (he : creates id scheduled e = true) :
    ¬ s.occurred id scheduled = true ∧ t.occurred id scheduled = true := by
  cases h with
  | edited _ _ _ hn =>
    rcases hn with rfl | ⟨_, rfl, _⟩ <;> simp [Yuki.creates] at he
  | added | closed => simp [Yuki.creates] at he
  | created _ _ _ hocc _ hid _ hruns =>
    simp only [Yuki.creates, Bool.and_eq_true, beq_iff_eq] at he
    obtain ⟨rfl, rfl⟩ := he
    refine ⟨by simp [hocc], occurred_iff.mpr ⟨_, ?_, rfl, rfl⟩⟩
    rw [hruns, runs_insert hid]
    exact List.mem_append_right _ List.mem_cons_self

theorem AutomationEffect.closes (h : AutomationEffect os s e t) {id : Nat}
    (he : closes id e = true) : ¬ s.closedRun id ∧ t.closedRun id := by
  cases h with
  | edited _ _ _ hn =>
    rcases hn with rfl | ⟨_, rfl, _⟩ <;> simp [Yuki.closes] at he
  | added | created => simp [Yuki.closes] at he
  | closed hrun hrunning hproper hruns =>
    simp only [Yuki.closes, beq_iff_eq] at he
    subst he
    constructor
    · rintro ⟨r, hr, hs⟩
      obtain rfl := Option.some.inj (hrun.symm.trans hr)
      exact hs hrunning
    · refine ⟨_, by rw [get?_closed hruns, hrun, Option.map_some], ?_⟩
      rw [if_pos (by simp)]
      exact hproper

theorem AutomationEffect.cancels {id : Nat} (h : AutomationEffect os s (.cancelled id) t) :
    t.cancelledRow id := by
  cases h with
  | edited _ _ _ hn =>
    rcases hn with hn | ⟨_, he, hrow⟩
    · cases hn
    · cases he
      exact hrow

/-- No run is created for a cancelled automation. -/
theorem AutomationEffect.createsFor (h : AutomationEffect os s e t) {id : Nat}
    (he : createsFor id e = true) : ¬ s.cancelledRow id := by
  cases h with
  | edited _ _ _ hn =>
    rcases hn with rfl | ⟨_, rfl, _⟩ <;> simp [Yuki.createsFor] at he
  | added | closed => simp [Yuki.createsFor] at he
  | created howner hactive =>
    simp only [Yuki.createsFor, beq_iff_eq] at he
    subst he
    rintro ⟨row, hrow, hs⟩
    obtain rfl := Option.some.inj (howner.symm.trans hrow)
    simp [hs] at hactive

/-- Runs appear and end by these events only. -/
theorem AutomationEffect.seen (h : AutomationEffect os s e t) :
    (∀ r ∈ t.runs.rows, r.id ∉ s.runs.rows.map RunRow.id → e = .created r) ∧
    ∀ id, t.closedRun id → ¬ s.closedRun id → (s.runs.get? id).isSome → e = .closed id := by
  constructor
  · intro r hr hnew
    cases h with
    | edited _ hruns | added _ _ hruns =>
      exact absurd (List.mem_map_of_mem (hruns ▸ hr)) hnew
    | created _ _ _ _ _ hid _ hruns =>
      rw [hruns, runs_insert hid, List.mem_append, List.mem_singleton] at hr
      rcases hr with hr | rfl
      · exact absurd (List.mem_map_of_mem hr) hnew
      · rfl
    | closed _ _ _ hruns =>
      rw [hruns] at hr
      obtain ⟨old, hold, rfl⟩ := List.mem_map.mp hr
      refine absurd (List.mem_map.mpr ⟨old, hold, ?_⟩) hnew
      split <;> rfl
  · rintro id ⟨r, hr, hs⟩ hopen hsome
    obtain ⟨old, hold⟩ := Option.isSome_iff_exists.mp hsome
    cases h with
    | edited _ hruns | added _ _ hruns => exact absurd ⟨r, hruns ▸ hr, hs⟩ hopen
    | created _ _ _ _ _ _ _ hruns =>
      rw [hruns, Table.get?_insert_of_some hold] at hr
      obtain rfl := Option.some.inj hr
      exact absurd ⟨old, hold, hs⟩ hopen
    | @closed _ run _ _ _ _ _ hruns =>
      rw [get?_closed hruns, hold, Option.map_some] at hr
      obtain rfl := Option.some.inj hr
      have hid := Table.get?_key hold
      by_cases hp : old.id = run.id
      · rw [← hid, hp]
      · rw [if_neg (by simp [hp])] at hs
        exact absurd ⟨old, hold, hs⟩ hopen

end

/-- Whatever the workers and the owner do, an occurrence has at most one run, a run ends at most
once, the counts are exact, no created run exceeds a limit, and a cancelled automation gets none. -/
theorem occurrences_exact {os : Platform} {s t : AutomationDb} {es : List AutomationEvent}
    (h : Run (AutomationStep os) s es t) (hs : s.Occurrences) :
    (∀ id scheduled, es.countP (creates id scheduled) ≤ 1 ∧
      (s.occurred id scheduled = true → es.countP (creates id scheduled) = 0)) ∧
    (∀ id, es.countP (closes id) ≤ 1 ∧ (s.closedRun id → es.countP (closes id) = 0)) ∧
    (∀ e u, AutomationStep os t e u →
      (∀ r ∈ u.runs.rows, r.id ∉ t.runs.rows.map RunRow.id → e = .created r) ∧
      ∀ id, u.closedRun id → ¬ t.closedRun id → (t.runs.get? id).isSome → e = .closed id) ∧
    (∀ row ∈ t.automations.rows, row.runCount = t.endedCount row.id) ∧
    (∀ run u, AutomationStep os t (.created run) u →
      ∀ row, u.automations.get? run.automationId = some row → ∀ limit, row.maxRuns = some limit →
        row.runCount + u.runningCount run.automationId ≤ limit) ∧
    (∀ id as bs, es = as ++ .cancelled id :: bs → bs.countP (createsFor id) = 0) := by
  have hocc : t.Occurrences := Run.invariant (fun _ _ _ hi hh => hh.effect.occurrences hi) h hs
  refine ⟨fun id scheduled => ⟨?_, fun hd => ?_⟩, fun id => ⟨?_, fun hd => ?_⟩,
    fun e u hstep => hstep.effect.seen, hocc.counted, fun run u hstep => hstep.effect.admitted,
    fun id as bs hes => ?_⟩
  · exact Run.once (fun _ _ _ hh ho => hh.effect.occurred ho)
      (fun _ _ _ hh he => hh.effect.creates he) h
  · exact Run.none_of_stable (fun _ _ _ hh ho => hh.effect.occurred ho)
      (fun _ _ _ hh he => (hh.effect.creates he).1) h hd
  · exact Run.once (fun _ _ _ hh ho => hh.effect.closedRun ho)
      (fun _ _ _ hh he => hh.effect.closes he) h
  · exact Run.none_of_stable (fun _ _ _ hh ho => hh.effect.closedRun ho)
      (fun _ _ _ hh he => (hh.effect.closes he).1) h hd
  · subst hes
    obtain ⟨u, -, hrest⟩ := h.split
    cases hrest with
    | cons hstep hrest =>
      have hdone := hstep.effect.cancels
      exact Run.none_of_stable (fun _ _ _ hh ho => hh.effect.cancelledRow ho)
        (fun _ _ _ hh he => hh.effect.createsFor he) hrest hdone

theorem AutomationStep.of_result {os : Platform} {db : AutomationDb} (op : AutomationOp)
    (now : Time) {e : AutomationEvent} (hp : op.proper)
    (h : (op.exec os db now).map Prod.snd = .ok e) :
    AutomationStep os db e (((op.exec os db now).map Prod.fst).toOption.getD db) := by
  cases hexec : op.exec os db now with
  | error => simp [hexec, Except.map] at h
  | ok r =>
    rw [hexec] at h
    exact .commit hp (by rw [hexec, ← Except.ok.inj h]; rfl)

/-- What a session leaves behind. -/
def leaves {α : Type} (db : AutomationDb) (r : Except Err (AutomationDb × α)) : AutomationDb :=
  (r.map Prod.fst).toOption.getD db

theorem eq_ok_leaves {α : Type} (db : AutomationDb) (r : Except Err (AutomationDb × α))
    (h : (r.map fun _ => ()) = .ok ()) : ∃ a, r = .ok (leaves db r, a) := by
  cases r with
  | error => cases h
  | ok a => exact ⟨a.2, rfl⟩

def utcPlatform : Platform :=
  { utcCalendar with casefold := id }

/-- The task of every minute. -/
def minutely : PreparedTaskDefinition :=
  ⟨.interval 60 (by decide), none, "h", ⟨"self", none, "p"⟩⟩

/-- An occurrence is claimed, run and reported; then its automation is cancelled. -/
theorem occurrences_exact_cancelled :
    let after (db : AutomationDb) (now : Time) (op : AutomationOp) : AutomationDb :=
      ((op.exec utcPlatform db now).map Prod.fst).toOption.getD db
    let db : AutomationDb := { presences := ["p"] }
    let create : AutomationOp := .create minutely "self" (some 3) 60 none
    let claim : AutomationOp := .claimDue "a" true 70 60 [1]
    let run : AutomationOp := .createRun 1 60 72 "a" (some 1)
    let report : RunReport := ⟨.succeeded, 1, 0, 0, none, .obj [], 80⟩
    let db₁ := after db 0 create
    let db₂ := after db₁ 71 claim
    let db₃ := after db₂ 72 run
    let finish : AutomationOp := .finishRun db₃ 1 report none
    let cancel : AutomationOp := .cancel 1 "self"
    let db₄ := after db₃ 80 finish
    let db₅ := after db₄ 90 cancel
    ∃ es, Run (AutomationStep utcPlatform) db es db₅ ∧ es.countP (creates 1 60) = 1 ∧
      es.countP (closes 1) ≤ 1 ∧
      ∀ row ∈ db₅.automations.rows, row.runCount = db₅.endedCount row.id := by
  intro after db create claim run report db₁ db₂ db₃ finish cancel db₄ db₅
  have hproper : finish.proper := (by decide : RunStatus.succeeded ≠ .running)
  have hrun : Run (AutomationStep utcPlatform) db
      [.none, .none, .created (newRun db₂ 1 1 60 72), .closed 1, .cancelled 1] db₅ :=
    .cons (.of_result create 0 trivial (by decide +kernel))
      (.cons (.of_result claim 71 trivial (by decide +kernel))
        (.cons (.of_result run 72 trivial (by decide +kernel))
          (.cons (.of_result finish 80 hproper (by decide +kernel))
            (.single (.of_result cancel 90 trivial (by decide +kernel))))))
  have hfresh : db.Occurrences :=
    ⟨fun _ hr => (List.not_mem_nil hr).elim, fun _ hr => (List.not_mem_nil hr).elim,
      fun _ hr => (List.not_mem_nil hr).elim⟩
  obtain ⟨-, hcloses, -, hcounted, -, -⟩ := occurrences_exact hrun hfresh
  exact ⟨_, hrun, by decide +kernel, (hcloses 1).1, hcounted⟩

end Yuki

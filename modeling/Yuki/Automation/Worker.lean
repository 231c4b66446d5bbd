import Yuki.Automation.Occurrences

/-! Two activities of the automation worker on one occurrence, and what the failure path of
the one does to the run of the other. -/

namespace Yuki

open AutomationRepository

/-- How far `_process_guarded` has come. -/
inductive ActivityPhase
  | waiting
  | processing
  | executing (runId : Nat)
  /-- `settle_work_occurrences` at the end of an execution. -/
  | settling (runId : Nat) (todo : List (RunRow × WorkRow))
  /-- The failure path: ended Works first, then the interrupted occurrence. -/
  | failed
  | closingWorks (todo : List (RunRow × WorkRow))
  | interrupted
  | closingInterrupted (todo : List RunRow)
  | releasing
  | done

structure Activity where
  automationId : Nat
  scheduledFor : Time
  workerId : String
  versionId : Nat
  phase : ActivityPhase

/-- The run an activity executes. -/
def Activity.holds (a : Activity) (runId : Nat) : Prop :=
  a.phase = .executing runId ∨ ∃ todo, a.phase = .settling runId todo

/-- One session of an activity; `seen` is what a reader within `finish_run` saw before. -/
inductive ActivityStep (os : Platform) :
    AutomationDb → Activity → AutomationDb → Activity → Prop
  | claim {db : AutomationDb} {a : Activity} (enabled : Bool) (timestamp now leaseSeconds : Time)
      (candidates : List Nat) (record : AutomationRecord) : a.phase = .waiting →
      record ∈ (claimDue db a.workerId enabled timestamp now leaseSeconds candidates).2 →
      record.id = a.automationId → record.nextRunAt = some a.scheduledFor →
      ActivityStep os db a
        (claimDue db a.workerId enabled timestamp now leaseSeconds candidates).1
        { a with versionId := record.versionId, phase := .processing }
  | renew {db : AutomationDb} {a : Activity} (leaseSeconds now : Time) :
      ActivityStep os db a (renewClaim db a.automationId a.workerId leaseSeconds now).1 a
  | create {db db' : AutomationDb} {a : Activity} {run : RunRow} (startedAt now : Time) :
      a.phase = .processing →
      createRun db a.automationId a.scheduledFor startedAt now (some a.workerId)
        (some a.versionId) = .ok (db', some run) →
      ActivityStep os db a db' { a with phase := .executing run.id }
  | notCreated {db db' : AutomationDb} {a : Activity} (startedAt now : Time) :
      a.phase = .processing →
      createRun db a.automationId a.scheduledFor startedAt now (some a.workerId)
        (some a.versionId) = .ok (db', none) →
      ActivityStep os db a db' { a with phase := .releasing }
  /-- The run's end: with the worker's id where the task could not be bound, without it else. -/
  | finish {db db' : AutomationDb} {a : Activity} {runId : Nat} {closed : Bool}
      (seen : AutomationDb) (report : RunReport) (guarded : Bool) : a.phase = .executing runId →
      report.status ≠ .running →
      finishRun os seen db runId report (if guarded then some a.workerId else none) =
        .ok (db', closed) →
      ActivityStep os db a db' { a with phase := .releasing }
  | readEnded {db : AutomationDb} {a : Activity} {runId : Nat} : a.phase = .executing runId →
      ActivityStep os db a db { a with phase := .settling runId (endedWorks db) }
  | settle {db db' : AutomationDb} {a : Activity} {runId : Nat} {run : RunRow} {w : WorkRow}
      {todo : List (RunRow × WorkRow)} {report : RunReport} {closed : Bool} (seen : AutomationDb)
      (now : Time) : a.phase = .settling runId ((run, w) :: todo) →
      workReport w now = some report → finishRun os seen db run.id report none = .ok (db', closed) →
      ActivityStep os db a db' { a with phase := .settling runId todo }
  | settled {db : AutomationDb} {a : Activity} {runId : Nat} : a.phase = .settling runId [] →
      ActivityStep os db a db { a with phase := .releasing }
  /-- An exception, a lost lease among them. -/
  | fail {db : AutomationDb} {a : Activity} :
      a.phase = .processing ∨ (∃ runId, a.holds runId) →
      ActivityStep os db a db { a with phase := .failed }
  | readWorks {db : AutomationDb} {a : Activity} : a.phase = .failed →
      ActivityStep os db a db { a with phase := .closingWorks (endedWorks db) }
  | closeWork {db db' : AutomationDb} {a : Activity} {run : RunRow} {w : WorkRow}
      {todo : List (RunRow × WorkRow)} {report : RunReport} {closed : Bool} (seen : AutomationDb)
      (now : Time) : a.phase = .closingWorks ((run, w) :: todo) →
      workReport w now = some report → finishRun os seen db run.id report none = .ok (db', closed) →
      ActivityStep os db a db' { a with phase := .closingWorks todo }
  | worksClosed {db : AutomationDb} {a : Activity} : a.phase = .closingWorks [] →
      ActivityStep os db a db { a with phase := .interrupted }
  | readInterrupted {db : AutomationDb} {a : Activity} : a.phase = .interrupted →
      ActivityStep os db a db { a with
        phase := .closingInterrupted
          (interruptedRuns db none (some (a.automationId, a.scheduledFor))) }
  | closeInterrupted {db db' : AutomationDb} {a : Activity} {run : RunRow} {todo : List RunRow}
      {closed : Bool} (seen : AutomationDb) (category : String) (now : Time) :
      a.phase = .closingInterrupted (run :: todo) →
      finishRun os seen db run.id (interruptedReport run category now) none = .ok (db', closed) →
      ActivityStep os db a db' { a with phase := .closingInterrupted todo }
  | interruptedClosed {db : AutomationDb} {a : Activity} : a.phase = .closingInterrupted [] →
      ActivityStep os db a db { a with phase := .releasing }
  /-- An exception within the failure path. -/
  | giveUp {db : AutomationDb} {a : Activity} : a.phase ≠ .waiting → a.phase ≠ .done →
      (∀ runId, ¬ a.holds runId) → ActivityStep os db a db { a with phase := .releasing }
  | release {db : AutomationDb} {a : Activity} : a.phase = .releasing →
      ActivityStep os db a (releaseClaim db a.automationId a.workerId none)
        { a with phase := .done }

/-- Two activities over one database. -/
structure Pair where
  db : AutomationDb
  a : Activity
  b : Activity

inductive Actor
  | a | b | works
deriving DecidableEq

/-- A session of either activity, or a change of Works by an execution. -/
inductive PairStep (os : Platform) : Pair → Actor → Pair → Prop
  | a {s : Pair} {db : AutomationDb} {x : Activity} : ActivityStep os s.db s.a db x →
    PairStep os s .a { s with db := db, a := x }
  | b {s : Pair} {db : AutomationDb} {x : Activity} : ActivityStep os s.db s.b db x →
    PairStep os s .b { s with db := db, b := x }
  | works {s : Pair} (host : Db) : PairStep os s .works { s with db := { s.db with host := host } }

namespace Pair

/-- Two workers on one occurrence: A has claimed it, B has not yet. -/
structure Started (s : Pair) : Prop where
  automation : s.a.automationId = s.b.automationId
  occurrence : s.a.scheduledFor = s.b.scheduledFor
  workers : s.a.workerId ≠ s.b.workerId
  first : s.a.phase = .processing
  second : s.b.phase = .waiting

/-- What A's failure path finds when it reads while B executes a run: the run has its root
Work, and that Work has not ended. -/
def Spared (s : Pair) : Prop :=
  ∀ runId run, s.b.holds runId → s.db.runs.get? runId = some run →
    (s.a.phase = .failed → ∀ version, run.versionId.bind s.db.versions.get? = some version →
      ∀ w ∈ s.db.host.works.rows, executes s.db run version w = true → w.state.terminal = false) ∧
    (s.a.phase = .interrupted → s.db.host.works.rows.any (ownedBy run) = true)

end Pair

/-- A step whose reads of A's failure path spare B's run. -/
def SparingStep (os : Platform) (s : Pair) (who : Actor) (t : Pair) : Prop :=
  PairStep os s who t ∧ (who = .a → s.Spared)

/-- The runs an activity's failure path is about to close. -/
def ActivityPhase.targets : ActivityPhase → List Nat
  | .closingWorks todo => todo.map fun t => t.1.id
  | .closingInterrupted todo => todo.map RunRow.id
  | _ => []

/-- A run and a worker's claim stay as they are. -/
structure Leaves (db db' : AutomationDb) (runId automationId : Nat) (workerId : String) : Prop where
  run : db'.runs.get? runId = db.runs.get? runId
  claim : ∀ row, db.automations.get? automationId = some row → row.claimedBy = some workerId →
    ∃ row', db'.automations.get? automationId = some row' ∧ row'.claimedBy = some workerId

section

variable {os : Platform} {db db' : AutomationDb} {runId id : Nat} {worker : String}

theorem Leaves.refl (db : AutomationDb) (runId id : Nat) (worker : String) :
    Leaves db db runId id worker :=
  ⟨rfl, fun row hrow hc => ⟨row, hrow, hc⟩⟩

/-- Another worker's update of its own claim. -/
theorem Leaves.update {p : AutomationRow → Bool} {f : AutomationRow → AutomationRow}
    (hf : ∀ r, (f r).id = r.id) (hp : ∀ r, p r = true → r.claimedBy ≠ some worker) :
    Leaves db (db.updateAutomations p f hf).1 runId id worker := by
  refine ⟨rfl, fun row hrow hc => ⟨row, ?_, hc⟩⟩
  have hn : ¬ p row = true := fun h => hp row h hc
  unfold AutomationDb.updateAutomations
  dsimp only
  rw [Table.get?_update, hrow, Option.map_some, if_neg hn]

theorem afterRun_claimedBy (row : AutomationRow) (run : RunRow) (status : RunStatus)
    (timestamp : Time) (next : Option Time) :
    (afterRun row run status timestamp next).claimedBy = row.claimedBy := by
  unfold afterRun
  dsimp only
  split
  · rfl
  split
  · rfl
  split
  · split
    · rfl
    split
    · rfl
    split <;> rfl
  · rfl

/-- The end of another run. -/
theorem Leaves.finishRun {seen : AutomationDb} {other : Nat} {report : RunReport}
    {workerId : Option String} {closed : Bool} (hne : other ≠ runId)
    (h : finishRun os seen db other report workerId = .ok (db', closed)) :
    Leaves db db' runId id worker := by
  obtain ⟨next, -, ⟨rfl, -, -⟩ | ⟨run, -, -, rfl, rfl, -⟩⟩ := finishRun_cases h
  · exact .refl _ _ _ _
  constructor
  · have hget := Table.get?_update db.runs (fun r => r.id == run.id)
      (fun r => ended os r report) (by intro r; rfl) runId
    unfold closeRun
    dsimp only
    rw [hget]
    cases hr : db.runs.get? runId with
    | none => rfl
    | some r =>
      have hid : r.id ≠ run.id := fun he => hne (he ▸ Table.get?_key hr)
      rw [Option.map_some, if_neg (by simpa using hid)]
  · intro row hrow hc
    have hget := Table.get?_update db.automations (fun r => r.id == run.automationId)
      (fun r => afterRun r run report.status report.finishedAt next)
      (fun r => afterRun_id r run report.status report.finishedAt next) id
    rw [hrow, Option.map_some] at hget
    refine ⟨_, hget, ?_⟩
    split
    · rw [afterRun_claimedBy]
      exact hc
    · exact hc

theorem mayCreate_claimed {owner : AutomationRow} {scheduledFor now : Time} {workerId : String}
    {versionId : Option Nat}
    (h : mayCreate db owner scheduledFor now (some workerId) versionId = true) :
    owner.claimedBy = some workerId := by
  simp only [mayCreate, Option.all_some, Bool.and_eq_true, beq_iff_eq] at h
  exact h.1.1.1.1

/-- What a worker finds when it creates a run, and leaves behind. -/
theorem createRun_created {scheduledFor startedAt now : Time} {versionId : Option Nat}
    {run : RunRow}
    (h : createRun db id scheduledFor startedAt now (some worker) versionId =
      .ok (db', some run)) :
    (∃ owner, db.automations.get? id = some owner ∧ owner.claimedBy = some worker) ∧
      db.occurred id scheduledFor = false ∧ run.automationId = id ∧
      run.scheduledFor = scheduledFor ∧ run.status = .running ∧
      run.id ∉ db.runs.rows.map RunRow.id ∧ db'.automations = db.automations ∧
      db'.runs.rows = db.runs.rows ++ [run] := by
  obtain ⟨owner, howner, hc⟩ := createRun_cases h
  rcases hc with ⟨hn, -⟩ | ⟨hmay, ⟨hn, -⟩ | ⟨hn, -⟩ | ⟨version, hn, hocc, -, rfl⟩⟩
  · cases hn
  · cases hn
  · cases hn
  · obtain rfl := Option.some.inj hn
    exact ⟨⟨owner, howner, mayCreate_claimed hmay⟩, hocc, rfl, rfl, rfl, nextKey_fresh _, rfl,
      runs_insert rfl⟩

end

namespace Pair

/-- B's run is running under B's claim, and out of reach of what A is about to close. -/
structure Kept (s : Pair) : Prop where
  automation : s.a.automationId = s.b.automationId
  occurrence : s.a.scheduledFor = s.b.scheduledFor
  workers : s.a.workerId ≠ s.b.workerId
  begun : s.a.phase ≠ .waiting
  held : ∀ runId, s.b.holds runId →
    (∃ run, s.db.runs.get? runId = some run ∧ run.automationId = s.b.automationId ∧
      run.scheduledFor = s.b.scheduledFor ∧
      (s.b.phase = .executing runId → run.status = .running)) ∧
    ∃ row, s.db.automations.get? s.b.automationId = some row ∧ row.claimedBy = some s.b.workerId
  single : ∀ runId, s.a.holds runId →
    s.db.occurred s.a.automationId s.a.scheduledFor = true ∧ ∀ other, ¬ s.b.holds other
  targets : ∀ runId ∈ s.a.phase.targets,
    runId ∈ s.db.runs.rows.map RunRow.id ∧ ¬ s.b.holds runId

end Pair

section

variable {os : Platform} {s t : Pair}

theorem holds_executing {x : Activity} {runId other : Nat} (h : x.phase = .executing runId) :
    x.holds other ↔ other = runId := by
  constructor
  · rintro (hh | ⟨todo, hh⟩)
    · rw [h] at hh
      cases hh
      rfl
    · rw [h] at hh
      cases hh
  · rintro rfl
    exact .inl h

theorem holds_settling {x : Activity} {runId other : Nat} {todo : List (RunRow × WorkRow)}
    (h : x.phase = .settling runId todo) : x.holds other ↔ other = runId := by
  constructor
  · rintro (hh | ⟨todo', hh⟩)
    · rw [h] at hh
      cases hh
    · rw [h] at hh
      cases hh
      rfl
  · rintro rfl
    exact .inr ⟨todo, h⟩

theorem runKeys_of_effect {db db' : AutomationDb} {e : AutomationEvent}
    (h : AutomationEffect os db e db') {id : Nat} (hid : id ∈ db.runs.rows.map RunRow.id) :
    id ∈ db'.runs.rows.map RunRow.id := by
  cases h with
  | edited _ hruns | added _ _ hruns =>
    rw [hruns]
    exact hid
  | created _ _ _ _ _ _ _ hruns =>
    rw [hruns, Table.keys_insert]
    exact .inl hid
  | closed _ _ _ hruns =>
    rw [hruns, List.map_map]
    obtain ⟨r, hr, rfl⟩ := List.mem_map.mp hid
    refine List.mem_map.mpr ⟨r, hr, ?_⟩
    simp only [Function.comp_apply]
    split <;> rfl

/-- Every session of an activity is one of the repository. -/
theorem ActivityStep.effect {db db' : AutomationDb} {x x' : Activity}
    (h : ActivityStep os db x db' x') : ∃ e, AutomationEffect os db e db' := by
  cases h with
  | claim => exact ⟨_, updateAutomations_effect _ (fun _ => rfl) fun _ _ hr => hr⟩
  | renew => exact ⟨_, updateAutomations_effect _ (fun _ => rfl) fun _ _ hr => hr⟩
  | create _ _ _ hc | notCreated _ _ _ hc => exact ⟨_, createRun_effect hc⟩
  | finish _ _ _ _ hproper hf => exact ⟨_, finishRun_effect hproper hf⟩
  | settle _ _ _ hreport hf | closeWork _ _ _ hreport hf =>
    exact ⟨_, finishRun_effect (workReport_ended hreport) hf⟩
  | closeInterrupted _ _ _ _ hf =>
    exact ⟨_, finishRun_effect (by simp [interruptedReport]) hf⟩
  | release => exact ⟨_, updateAutomations_effect _ (fun _ => rfl) fun _ _ hr => hr⟩
  | readEnded | settled | fail | readWorks | worksClosed | readInterrupted | interruptedClosed
  | giveUp => exact ⟨_, .refl _⟩

theorem ActivityStep.fixed {db db' : AutomationDb} {x x' : Activity}
    (h : ActivityStep os db x db' x') : x'.automationId = x.automationId ∧
      x'.scheduledFor = x.scheduledFor ∧ x'.workerId = x.workerId := by
  cases h <;> exact ⟨rfl, rfl, rfl⟩

/-- While B holds a run, A may not create one. -/
theorem Pair.Kept.refused {db : AutomationDb} {runId : Nat} {startedAt now : Time}
    {r : Option RunRow} (h : s.Kept) (hb : s.b.holds runId)
    (hc : createRun s.db s.a.automationId s.a.scheduledFor startedAt now (some s.a.workerId)
      (some s.a.versionId) = .ok (db, r)) : db = s.db ∧ r = none := by
  obtain ⟨owner, howner, hc⟩ := createRun_cases hc
  rcases hc with ⟨rfl, rfl⟩ | ⟨hmay, -⟩
  · exact ⟨rfl, rfl⟩
  · obtain ⟨-, row, hrow, hclaim⟩ := h.held runId hb
    rw [h.automation, hrow] at howner
    obtain rfl := Option.some.inj howner
    have hown := mayCreate_claimed hmay
    rw [hclaim] at hown
    exact absurd (Option.some.inj hown).symm h.workers

/-- No session of A touches the run B holds, or B's claim. -/
theorem Pair.Kept.leaves {db : AutomationDb} {x : Activity} {runId : Nat} (h : s.Kept)
    (hstep : ActivityStep os s.db s.a db x) (hb : s.b.holds runId) :
    Leaves s.db db runId s.b.automationId s.b.workerId := by
  have hother (r : AutomationRow) (hr : r.claimedBy = some s.a.workerId) :
      r.claimedBy ≠ some s.b.workerId := by
    rw [hr]
    exact fun he => h.workers (Option.some.inj he)
  cases hstep with
  | claim _ _ _ _ _ _ hphase => exact absurd hphase h.begun
  | renew leaseSeconds now =>
    refine .update _ fun r hp => hother r ?_
    simp only [Bool.and_eq_true, beq_iff_eq] at hp
    exact hp.1.2
  | create _ _ _ hc =>
    obtain ⟨-, hn⟩ := h.refused hb hc
    cases hn
  | notCreated _ _ _ hc =>
    obtain ⟨rfl, -⟩ := h.refused hb hc
    exact .refl _ _ _ _
  | finish _ _ _ hphase => exact absurd hb ((h.single _ (.inl hphase)).2 runId)
  | settle _ _ hphase => exact absurd hb ((h.single _ (.inr ⟨_, hphase⟩)).2 runId)
  | closeWork _ _ hphase _ hf =>
    refine .finishRun (fun he => ?_) hf
    subst he
    have hmem := h.targets _ (by rw [hphase]; exact List.mem_cons_self)
    exact hmem.2 hb
  | closeInterrupted _ _ _ hphase hf =>
    refine .finishRun (fun he => ?_) hf
    subst he
    have hmem := h.targets _ (by rw [hphase]; exact List.mem_cons_self)
    exact hmem.2 hb
  | release =>
    refine .update _ fun r hp => hother r ?_
    simp only [Bool.and_eq_true, beq_iff_eq] at hp
    exact hp.2
  | readEnded | settled | fail | readWorks | worksClosed | readInterrupted | interruptedClosed
  | giveUp => exact .refl _ _ _ _

/-- What A's failure path reads while B holds a run does not contain that run. -/
theorem Pair.Spared.works (h : s.Spared) (hphase : s.a.phase = .failed) {run : RunRow}
    {w : WorkRow} (hmem : (run, w) ∈ endedWorks s.db) :
    run.id ∈ s.db.runs.rows.map RunRow.id ∧ ¬ s.b.holds run.id := by
  obtain ⟨r, hr, hin⟩ := List.mem_flatMap.mp hmem
  split at hin
  · cases hin
  · next version hversion =>
    split at hin
    · obtain ⟨w', hw, he⟩ := List.mem_map.mp hin
      cases he
      obtain ⟨hw, hp⟩ := List.mem_filter.mp hw
      simp only [Bool.and_eq_true] at hp
      refine ⟨List.mem_map_of_mem hr, fun hb => ?_⟩
      have hends := (h _ _ hb (Table.mem_rows.mp hr)).1 hphase version hversion w hw hp.1
      simp [hends] at hp
    · cases hin

theorem Pair.Spared.interrupted (h : s.Spared) (hphase : s.a.phase = .interrupted)
    {occurrence : Option (Nat × Time)} {run : RunRow}
    (hmem : run ∈ interruptedRuns s.db none occurrence) :
    run.id ∈ s.db.runs.rows.map RunRow.id ∧ ¬ s.b.holds run.id := by
  obtain ⟨hr, hp⟩ := List.mem_filter.mp hmem
  refine ⟨List.mem_map_of_mem hr, fun hb => ?_⟩
  have howned := (h _ _ hb (Table.mem_rows.mp hr)).2 hphase
  simp [howned] at hp

theorem not_holds {x : Activity} {phase : ActivityPhase} (h : x.phase = phase)
    (hne : ∀ runId todo, phase ≠ .executing runId ∧ phase ≠ .settling runId todo) (runId : Nat) :
    ¬ x.holds runId := by
  rintro (hh | ⟨todo, hh⟩)
  · exact (hne runId []).1 (h.symm.trans hh)
  · exact (hne runId todo).2 (h.symm.trans hh)

/-- A session of A keeps the invariant if its reads spare B's run. -/
theorem Pair.Kept.stepA {db : AutomationDb} {x : Activity} (h : s.Kept) (hspared : s.Spared)
    (hstep : ActivityStep os s.db s.a db x) : ({ s with db := db, a := x } : Pair).Kept := by
  obtain ⟨hid, htime, hworker⟩ := hstep.fixed
  obtain ⟨e, heffect⟩ := hstep.effect
  refine ⟨hid.trans h.automation, htime.trans h.occurrence, hworker ▸ h.workers, ?_, ?_, ?_, ?_⟩
  · have hbegun := h.begun
    cases hstep
    case claim hphase _ _ _ => exact absurd hphase hbegun
    case renew => exact hbegun
    all_goals exact ActivityPhase.noConfusion
  · intro runId hb
    have hleaves := h.leaves hstep hb
    obtain ⟨⟨run, hrun, hrest⟩, row, hrow, hclaim⟩ := h.held runId hb
    exact ⟨⟨run, hleaves.run.trans hrun, hrest⟩, hleaves.claim row hrow hclaim⟩
  · intro runId hx
    dsimp only at hx ⊢
    rw [hid, htime]
    have hkept (other : Nat) (ha : s.a.holds other) :
        db.occurred s.a.automationId s.a.scheduledFor = true ∧ ∀ other, ¬ s.b.holds other :=
      ⟨heffect.occurred (h.single other ha).1, (h.single other ha).2⟩
    cases hstep with
    | claim _ _ _ _ _ _ hphase => exact absurd hphase h.begun
    | renew => exact hkept runId hx
    | @create _ _ run _ _ _ hc =>
      refine ⟨?_, fun other hb => ?_⟩
      · obtain ⟨-, -, ha, ht, -, -, -, hrows⟩ := createRun_created hc
        refine occurred_iff.mpr ⟨run, ?_, ha, ht⟩
        rw [hrows]
        exact List.mem_append_right _ List.mem_cons_self
      · obtain ⟨-, hn⟩ := h.refused hb hc
        cases hn
    | readEnded hphase => exact hkept _ (.inl hphase)
    | settle _ _ hphase => exact hkept _ (.inr ⟨_, hphase⟩)
    | notCreated | finish | settled | fail | readWorks | closeWork | worksClosed
    | readInterrupted | closeInterrupted | interruptedClosed | giveUp | release =>
      refine absurd hx (not_holds rfl (fun _ _ => ⟨ActivityPhase.noConfusion, ActivityPhase.noConfusion⟩) runId)
  · intro runId hmem
    have hkept (htarget : runId ∈ s.a.phase.targets) :
        runId ∈ db.runs.rows.map RunRow.id ∧ ¬ s.b.holds runId :=
      ⟨runKeys_of_effect heffect (h.targets runId htarget).1, (h.targets runId htarget).2⟩
    cases hstep with
    | claim _ _ _ _ _ _ hphase => exact absurd hphase h.begun
    | renew => exact hkept hmem
    | readWorks hphase =>
      obtain ⟨⟨run, w⟩, htodo, rfl⟩ := List.mem_map.mp hmem
      exact hspared.works hphase htodo
    | readInterrupted hphase =>
      obtain ⟨run, htodo, rfl⟩ := List.mem_map.mp hmem
      exact hspared.interrupted hphase htodo
    | closeWork _ _ hphase =>
      exact hkept (by rw [hphase]; exact List.mem_cons_of_mem _ hmem)
    | closeInterrupted _ _ _ hphase =>
      exact hkept (by rw [hphase]; exact List.mem_cons_of_mem _ hmem)
    | create | notCreated | finish | readEnded | settle | settled | fail | worksClosed
    | interruptedClosed | giveUp | release => exact (List.not_mem_nil hmem).elim

/-- The end of any run keeps every run's occurrence and every claim. -/
theorem finishRun_keeps {seen db db' : AutomationDb} {other : Nat} {report : RunReport}
    {workerId : Option String} {closed : Bool}
    (h : finishRun os seen db other report workerId = .ok (db', closed)) :
    (∀ runId run, db.runs.get? runId = some run → ∃ run', db'.runs.get? runId = some run' ∧
      run'.automationId = run.automationId ∧ run'.scheduledFor = run.scheduledFor) ∧
    ∀ id row, db.automations.get? id = some row → ∃ row', db'.automations.get? id = some row' ∧
      row'.claimedBy = row.claimedBy := by
  obtain ⟨next, -, ⟨rfl, -, -⟩ | ⟨run, -, -, rfl, rfl, -⟩⟩ := finishRun_cases h
  · exact ⟨fun _ run hrun => ⟨run, hrun, rfl, rfl⟩, fun _ row hrow => ⟨row, hrow, rfl⟩⟩
  constructor
  · intro runId run' hrun
    have hget := Table.get?_update db.runs (fun r => r.id == run.id)
      (fun r => ended os r report) (by intro r; rfl) runId
    rw [hrun, Option.map_some] at hget
    refine ⟨_, hget, ?_⟩
    split <;> exact ⟨rfl, rfl⟩
  · intro id row hrow
    have hget := Table.get?_update db.automations (fun r => r.id == run.automationId)
      (fun r => afterRun r run report.status report.finishedAt next)
      (fun r => afterRun_id r run report.status report.finishedAt next) id
    rw [hrow, Option.map_some] at hget
    refine ⟨_, hget, ?_⟩
    split
    · exact afterRun_claimedBy ..
    · rfl

/-- A session of B keeps the invariant. -/
theorem Pair.Kept.stepB {db : AutomationDb} {x : Activity} (h : s.Kept)
    (hstep : ActivityStep os s.db s.b db x) : ({ s with db := db, b := x } : Pair).Kept := by
  obtain ⟨hid, htime, hworker⟩ := hstep.fixed
  obtain ⟨e, heffect⟩ := hstep.effect
  refine ⟨h.automation.trans hid.symm, h.occurrence.trans htime.symm, hworker ▸ h.workers, h.begun,
    ?_, ?_, ?_⟩
  · intro runId hx
    dsimp only at hx ⊢
    rw [hid, htime, hworker]
    cases hstep with
    | renew leaseSeconds now =>
      obtain ⟨hrun, row, hrow, hclaim⟩ := h.held runId hx
      refine ⟨hrun, ?_⟩
      unfold renewClaim AutomationDb.updateAutomations
      dsimp only
      rw [Table.get?_update, hrow, Option.map_some]
      refine ⟨_, rfl, ?_⟩
      split <;> exact hclaim
    | @create _ _ run _ _ _ hc =>
      obtain ⟨⟨owner, howner, hclaim⟩, -, ha, ht, hrunning, hfresh, hautos, hrows⟩ :=
        createRun_created hc
      obtain rfl := (holds_executing rfl).mp hx
      refine ⟨⟨run, ?_, ha, ht, fun _ => hrunning⟩, owner, by rw [hautos]; exact howner, hclaim⟩
      refine Table.get?_eq_some.mpr ⟨?_, rfl⟩
      rw [hrows]
      exact List.mem_append_right _ List.mem_cons_self
    | readEnded hphase =>
      obtain rfl := (holds_settling rfl).mp hx
      obtain ⟨⟨run, hrun, ha, ht, -⟩, hclaim⟩ := h.held _ (.inl hphase)
      exact ⟨⟨run, hrun, ha, ht, ActivityPhase.noConfusion⟩, hclaim⟩
    | settle _ _ hphase _ hf =>
      obtain rfl := (holds_settling rfl).mp hx
      obtain ⟨⟨run, hrun, ha, ht, -⟩, row, hrow, hclaim⟩ := h.held _ (.inr ⟨_, hphase⟩)
      obtain ⟨hruns, hrows⟩ := finishRun_keeps hf
      obtain ⟨run', hrun', ha', ht'⟩ := hruns _ run hrun
      obtain ⟨row', hrow', hclaim'⟩ := hrows _ row hrow
      exact ⟨⟨run', hrun', ha'.trans ha, ht'.trans ht, ActivityPhase.noConfusion⟩, row', hrow',
        hclaim'.trans hclaim⟩
    | claim | notCreated | finish | settled | fail | readWorks | closeWork | worksClosed
    | readInterrupted | closeInterrupted | interruptedClosed | giveUp | release =>
      exact absurd hx (not_holds rfl (fun _ _ => ⟨ActivityPhase.noConfusion, ActivityPhase.noConfusion⟩) runId)
  · intro runId ha
    obtain ⟨hocc, hnone⟩ := h.single runId ha
    refine ⟨heffect.occurred hocc, fun other hx => ?_⟩
    dsimp only at hx
    cases hstep with
    | renew => exact hnone other hx
    | create _ _ _ hc =>
      obtain ⟨-, hfree, -⟩ := createRun_created hc
      rw [← h.automation, ← h.occurrence, hocc] at hfree
      cases hfree
    | readEnded hphase => exact hnone _ (.inl hphase)
    | settle _ _ hphase => exact hnone _ (.inr ⟨_, hphase⟩)
    | claim | notCreated | finish | settled | fail | readWorks | closeWork | worksClosed
    | readInterrupted | closeInterrupted | interruptedClosed | giveUp | release =>
      exact absurd hx (not_holds rfl (fun _ _ => ⟨ActivityPhase.noConfusion, ActivityPhase.noConfusion⟩) other)
  · intro runId hmem
    obtain ⟨hkey, hnone⟩ := h.targets runId hmem
    refine ⟨runKeys_of_effect heffect hkey, fun hx => ?_⟩
    dsimp only at hx
    cases hstep with
    | renew => exact hnone hx
    | create _ _ _ hc =>
      obtain ⟨-, -, -, -, -, hfresh, -⟩ := createRun_created hc
      obtain rfl := (holds_executing rfl).mp hx
      exact hfresh hkey
    | readEnded hphase =>
      obtain rfl := (holds_settling rfl).mp hx
      exact hnone (.inl hphase)
    | settle _ _ hphase =>
      obtain rfl := (holds_settling rfl).mp hx
      exact hnone (.inr ⟨_, hphase⟩)
    | claim | notCreated | finish | settled | fail | readWorks | closeWork | worksClosed
    | readInterrupted | closeInterrupted | interruptedClosed | giveUp | release =>
      exact absurd hx (not_holds rfl (fun _ _ => ⟨ActivityPhase.noConfusion, ActivityPhase.noConfusion⟩) runId)

theorem Pair.Kept.step {who : Actor} (h : s.Kept) (hstep : SparingStep os s who t) : t.Kept := by
  obtain ⟨hstep, hspared⟩ := hstep
  cases hstep with
  | a hstep => exact h.stepA (hspared rfl) hstep
  | b hstep => exact h.stepB hstep
  | works => exact ⟨h.automation, h.occurrence, h.workers, h.begun, h.held, h.single, h.targets⟩

theorem Pair.Started.kept (h : s.Started) : s.Kept := by
  have hfirst := not_holds h.first fun _ _ => ⟨ActivityPhase.noConfusion, ActivityPhase.noConfusion⟩
  have hsecond := not_holds h.second fun _ _ => ⟨ActivityPhase.noConfusion, ActivityPhase.noConfusion⟩
  refine ⟨h.automation, h.occurrence, h.workers, fun he => ?_, fun runId hb => ?_, fun runId ha => ?_,
    fun runId hmem => ?_⟩
  · rw [h.first] at he
    cases he
  · exact absurd hb (hsecond runId)
  · exact absurd ha (hfirst runId)
  · rw [h.first] at hmem
    exact (List.not_mem_nil hmem).elim

/-- As long as the reads of A's failure path spare B's run, no session of A touches it, it runs
while B executes it, and B's own report of its end succeeds. -/
theorem stale_worker_spares {s t : Pair} {actors : List Actor} (hs : s.Started)
    (hrun : Run (SparingStep os) s actors t) :
    (∀ u, SparingStep os t .a u → ∀ runId, t.b.holds runId →
      u.db.runs.get? runId = t.db.runs.get? runId) ∧
    ∀ runId, t.b.phase = .executing runId →
      (∃ run, t.db.runs.get? runId = some run ∧ run.status = .running) ∧
      ∀ seen report (guarded : Bool) db closed,
        finishRun os seen t.db runId report (if guarded then some t.b.workerId else none) =
          .ok (db, closed) → closed = true := by
  have ht : t.Kept := Run.invariant (fun _ _ _ hi hh => hi.step hh) hrun hs.kept
  refine ⟨fun u hu runId hb => ?_, fun runId hb => ?_⟩
  · cases hu.1 with
    | a hstep => exact (ht.leaves hstep hb).run
  · obtain ⟨⟨run, hget, ha, -, hrunning⟩, row, hrow, hclaim⟩ := ht.held runId (.inl hb)
    refine ⟨⟨run, hget, hrunning hb⟩, fun seen report guarded db closed hf => ?_⟩
    obtain ⟨_, -, ⟨-, -, hrefused⟩ | ⟨_, -, -, -, -, hclosed⟩⟩ := finishRun_cases hf
    · obtain ⟨worker, hworker, hother⟩ := hrefused run hget (hrunning hb)
      rw [ha] at hother
      cases guarded with
      | false => cases hworker
      | true =>
        obtain rfl := Option.some.inj hworker
        exact absurd hclaim (hother row hrow)
    · exact hclosed

end

/-- An automation of every minute, claimed by A at 71 for a minute. -/
def claimedDb : AutomationDb :=
  let created := leaves { presences := ["p"] }
    (create { presences := ["p"] } minutely "self" none 60 0 none)
  (claimDue created "a" true 70 71 60 [1]).1

def startedPair : Pair :=
  ⟨claimedDb, ⟨1, 60, "a", 1, .processing⟩, ⟨1, 60, "b", 0, .waiting⟩⟩

/-- B has claimed the occurrence at 200 and created its run. -/
def executingPair : Pair :=
  let claimed := (claimDue claimedDb "b" true 200 200 60 [1]).1
  { startedPair with
    db := leaves claimed (createRun claimed 1 60 201 201 (some "b") (some 1))
    b := ⟨1, 60, "b", 1, .executing 1⟩ }

theorem startedPair_started : startedPair.Started :=
  ⟨rfl, rfl, by decide, rfl, rfl⟩

theorem executingPair_reached :
    Run (PairStep utcPlatform) startedPair [.b, .b] executingPair := by
  let claimed := (claimDue claimedDb "b" true 200 200 60 [1]).1
  let record : AutomationRecord :=
    { id := 1, versionId := 1, claimedBy := some "b", status := .active, timezone := "Asia/Shanghai",
      schedule := .interval 60 (by decide), scriptHash := "h", nextRunAt := some 60, runCount := 0,
      maxRuns := none, creationMaxRuns := none }
  have hclaim : PairStep utcPlatform startedPair .b
      { startedPair with db := claimed, b := ⟨1, 60, "b", 1, .processing⟩ } :=
    .b (.claim true 200 200 60 [1] record rfl (by decide +kernel) rfl rfl)
  have hcreate : createRun claimed 1 60 201 201 (some "b") (some 1) =
      .ok (executingPair.db, some (newRun claimed 1 1 60 201)) := by
    have hresult : (createRun claimed 1 60 201 201 (some "b") (some 1)).map Prod.snd =
        .ok (some (newRun claimed 1 1 60 201)) := by decide +kernel
    obtain ⟨r, hr, he⟩ := map_eq_ok.mp hresult
    have hdb : executingPair.db = r.1 := by
      show leaves claimed (createRun claimed 1 60 201 201 (some "b") (some 1)) = r.1
      rw [hr]
      rfl
    rw [hr, hdb, ← he]
  have hexec : ActivityStep utcPlatform claimed ⟨1, 60, "b", 1, .processing⟩ executingPair.db
      ⟨1, 60, "b", 1, .executing (newRun claimed 1 1 60 201).id⟩ := .create 201 201 rfl hcreate
  have hid : (newRun claimed 1 1 60 201).id = 1 := by decide +kernel
  rw [hid] at hexec
  exact .cons hclaim (.single (.b hexec))

/-- The pair while A is at some point of its failure path. -/
def failingPair (db : AutomationDb) (phase : ActivityPhase) : Pair :=
  { executingPair with db := db, a := ⟨1, 60, "a", 1, phase⟩ }

/-- The readings of A's failure path, whatever Works and runs they find. -/
theorem failingPair_reads (db : AutomationDb) (todo : List RunRow) (hworks : endedWorks db = [])
    (hruns : interruptedRuns db none (some (1, 60)) = todo) :
    PairStep utcPlatform (failingPair db .processing) .a (failingPair db .failed) ∧
      PairStep utcPlatform (failingPair db .failed) .a (failingPair db (.closingWorks [])) ∧
      PairStep utcPlatform (failingPair db (.closingWorks [])) .a (failingPair db .interrupted) ∧
      PairStep utcPlatform (failingPair db .interrupted) .a
        (failingPair db (.closingInterrupted todo)) := by
  refine ⟨.a (.fail (.inl rfl)), ?_, .a (.worksClosed rfl), ?_⟩
  · have hstep : ActivityStep utcPlatform db ⟨1, 60, "a", 1, .failed⟩ db _ := .readWorks rfl
    rw [hworks] at hstep
    exact .a hstep
  · have hstep : ActivityStep utcPlatform db ⟨1, 60, "a", 1, .interrupted⟩ db _ :=
      .readInterrupted rfl
    rw [hruns] at hstep
    exact .a hstep

/-- A's failure path closes the run B executes; B's own report then fails. -/
theorem stale_worker_closes : ∃ actors u t,
    startedPair.Started ∧ Run (PairStep utcPlatform) startedPair actors u ∧
      u.b.phase = .executing 1 ∧ (u.db.runs.get? 1).map RunRow.status = some .running ∧
      PairStep utcPlatform u .a t ∧
      t.b.phase = .executing 1 ∧ (t.db.runs.get? 1).map RunRow.status = some .uncertain ∧
      ∀ seen report db closed, finishRun utcPlatform seen t.db 1 report none = .ok (db, closed) →
        closed = false := by
  let db := executingPair.db
  let run := newRun (claimDue claimedDb "b" true 200 200 60 [1]).1 1 1 60 201
  let report := interruptedReport run "WorkConflict" 202
  let after := leaves db (finishRun utcPlatform db db 1 report none)
  have hrun : Run (PairStep utcPlatform) startedPair [.b, .b, .a, .a, .a, .a]
      (failingPair db (.closingInterrupted [run])) := by
    obtain ⟨hfail, hworks, hnone, hfound⟩ :=
      failingPair_reads db [run] (by decide +kernel) (by decide +kernel)
    exact executingPair_reached.append (.cons hfail (.cons hworks (.cons hnone (.single hfound))))
  have hclose : PairStep utcPlatform (failingPair db (.closingInterrupted [run])) .a
      (failingPair after (.closingInterrupted [])) := by
    obtain ⟨closed, hclosed⟩ :=
      eq_ok_leaves db (finishRun utcPlatform db db 1 report none) (by decide +kernel)
    exact .a (.closeInterrupted db "WorkConflict" 202 rfl hclosed)
  have hrunning : (db.runs.get? 1).map RunRow.status = some .running := by decide +kernel
  have hstatus : (after.runs.get? 1).map RunRow.status = some .uncertain := by decide +kernel
  refine ⟨_, _, _, startedPair_started, hrun, rfl, hrunning, hclose, rfl, hstatus,
    fun seen report db closed hf => ?_⟩
  obtain ⟨_, -, ⟨-, hclosed, -⟩ | ⟨r, hr, hopen, -, -, -⟩⟩ := finishRun_cases hf
  · exact hclosed
  · obtain ⟨r', hr', hs⟩ := Option.map_eq_some_iff.mp hstatus
    obtain rfl := Option.some.inj (hr.symm.trans hr')
    rw [hopen] at hs
    cases hs

/-- The Work B's execution has accepted. -/
def acceptedWork : WorkRow :=
  { id := "w", parentWorkId := none, conversationId := "c", generation := 1,
    sourceKey := "automation:1:h",
    sourceJson := .obj [("owner", .str "automation"), ("automation_run_id", .int 1)],
    goal := "g", state := .running, created := 201, updated := 201 }

def acceptedDb : AutomationDb :=
  { executingPair.db with host := { works := ⟨[acceptedWork], by decide⟩ } }

theorem acceptedDb_spared (phase : ActivityPhase) : (failingPair acceptedDb phase).Spared := by
  intro runId run hb hrun
  obtain rfl := (holds_executing rfl).mp hb
  refine ⟨fun _ version _ w hw _ => ?_, fun _ => ?_⟩
  · obtain rfl := List.mem_singleton.mp hw
    rfl
  · have hid : run.id = 1 := Table.get?_key hrun
    have howned : ownedBy run acceptedWork = true := by
      unfold ownedBy
      rw [hid]
      decide +kernel
    exact List.any_eq_true.mpr ⟨acceptedWork, List.mem_singleton.mpr rfl, howned⟩

/-- B's Work is accepted before A's failure path reads: B goes on, and its report succeeds. -/
theorem stale_worker_spares_accepted :
    let t := failingPair acceptedDb (.closingInterrupted [])
    (t.db.runs.get? 1).map RunRow.status = some .running ∧
      ∀ seen report db closed, finishRun utcPlatform seen t.db 1 report none = .ok (db, closed) →
        closed = true := by
  intro t
  let db := acceptedDb
  have hrun : Run (SparingStep utcPlatform) startedPair [.b, .b, .works, .a, .a, .a, .a] t := by
    have hbegin : Run (SparingStep utcPlatform) startedPair [.b, .b] executingPair := by
      cases executingPair_reached with
      | cons h₁ hrest =>
        cases hrest with
        | cons h₂ hrest =>
          cases hrest
          exact .cons ⟨h₁, Actor.noConfusion⟩ (.single ⟨h₂, Actor.noConfusion⟩)
    have haccept : PairStep utcPlatform executingPair .works
        (failingPair db .processing) := .works _
    obtain ⟨hfail, hworks, hnone, hfound⟩ :=
      failingPair_reads db [] (by decide +kernel) (by decide +kernel)
    have hspared (phase : ActivityPhase) : Actor.a = .a → (failingPair db phase).Spared :=
      fun _ => acceptedDb_spared phase
    exact hbegin.append (.cons ⟨haccept, Actor.noConfusion⟩ (.cons ⟨hfail, hspared _⟩
      (.cons ⟨hworks, hspared _⟩ (.cons ⟨hnone, hspared _⟩ (.single ⟨hfound, hspared _⟩)))))
  obtain ⟨⟨run, hget, hrunning⟩, hreport⟩ :=
    (stale_worker_spares startedPair_started hrun).2 1 rfl
  exact ⟨by rw [hget, Option.map_some, hrunning],
    fun seen report db closed hf => hreport seen report false db closed hf⟩

end Yuki

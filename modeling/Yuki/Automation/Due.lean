import Yuki.Automation.Occurrences
import Yuki.Automation.Service

/-! An active automation always has a next occurrence that no finished run hides. -/

namespace Yuki

open AutomationRepository AutomationService

namespace AutomationRow

def terminal (row : AutomationRow) : Prop :=
  row.status = .cancelled ∨ row.status = .completed

/-- The runs of a row lie at or before its next occurrence, and none at it has ended. -/
structure Timely (row : AutomationRow) (db : AutomationDb) : Prop where
  active : row.status = .active → row.nextRunAt ≠ none
  terminal : row.terminal → row.nextRunAt = none
  runs : ∀ next, row.nextRunAt = some next → ∀ r ∈ db.runs.rows, r.automationId = row.id →
    r.scheduledFor ≤ next ∧ (r.scheduledFor = next → r.status = .running)

end AutomationRow

/-- The invariant of the runs and the next occurrences at a time. -/
structure AutomationDb.Timely (db : AutomationDb) (clock : Time) : Prop where
  owned : ∀ r ∈ db.runs.rows, ∃ row, db.automations.get? r.automationId = some row
  past : ∀ r ∈ db.runs.rows, r.scheduledFor ≤ clock
  rows : ∀ row ∈ db.automations.rows, row.Timely db

structure AutomationWorld.Timely (w : AutomationWorld) : Prop where
  db : w.db.Timely w.clock
  claims : ∀ c ∈ w.claims, ∀ next, c.nextRunAt = some next → next ≤ w.clock

section

variable {db db' : AutomationDb} {clock now : Time}

theorem AutomationRow.Timely.same {row row' : AutomationRow} (h : row.Timely db)
    (hid : row'.id = row.id) (hstatus : row'.status = row.status)
    (hnext : row'.nextRunAt = row.nextRunAt) : row'.Timely db := by
  obtain ⟨hactive, hterminal, hruns⟩ := h
  constructor
  · rw [hstatus, hnext]
    exact hactive
  · rw [AutomationRow.terminal, hstatus, hnext]
    exact hterminal
  · rw [hid, hnext]
    exact hruns

/-- A next occurrence in the future is behind every run. -/
theorem AutomationDb.Timely.later {row : AutomationRow} {next : Time} (h : db.Timely clock)
    (hnext : row.nextRunAt = some next) (hlt : clock < next) (hopen : ¬ row.terminal) :
    row.Timely db := by
  refine ⟨fun _ => by simp [hnext], fun ht => absurd ht hopen, fun n hn r hr _ => ?_⟩
  obtain rfl := Option.some.inj (hnext.symm.trans hn)
  have hpast := h.past r hr
  exact ⟨by linarith, fun he => absurd he (by linarith)⟩

theorem AutomationRow.Timely.vacant {row : AutomationRow} (hnext : row.nextRunAt = none)
    (hactive : row.status ≠ .active) : row.Timely db :=
  ⟨fun h => absurd h hactive, fun _ => hnext, fun next hn => by simp [hnext] at hn⟩

/-- An edit of rows that keeps each row timely. -/
theorem AutomationDb.Timely.edit (h : db.Timely clock) (hclock : clock ≤ now)
    {f : AutomationRow → AutomationRow} (hruns : db'.runs = db.runs)
    (hget : ∀ k, db'.automations.get? k = (db.automations.get? k).map f)
    (hf : ∀ row ∈ db.automations.rows, row.Timely db → (f row).Timely db) : db'.Timely now := by
  refine ⟨fun r hr => ?_, fun r hr => ?_, fun row hrow => ?_⟩
  · obtain ⟨row, hrow⟩ := h.owned r (hruns ▸ hr)
    exact ⟨f row, by rw [hget, hrow, Option.map_some]⟩
  · have hpast := h.past r (hruns ▸ hr)
    linarith
  · obtain ⟨old, hold, rfl⟩ := rows_of_get? hget hrow
    have hrow := hf old hold (h.rows old hold)
    refine ⟨hrow.active, hrow.terminal, ?_⟩
    rw [hruns]
    exact hrow.runs

theorem AutomationDb.Timely.update (h : db.Timely clock) (hclock : clock ≤ now)
    {p : AutomationRow → Bool} {f : AutomationRow → AutomationRow} (hid : ∀ r, (f r).id = r.id)
    (hf : ∀ row ∈ db.automations.rows, p row = true → row.Timely db → (f row).Timely db) :
    (db.updateAutomations p f hid).1.Timely now := by
  refine h.edit hclock rfl (Table.get?_update _ _ _ hid) fun row hrow ht => ?_
  by_cases hp : p row = true
  · rw [if_pos hp]
    exact hf row hrow hp ht
  · rw [if_neg hp]
    exact ht

theorem create_timely {definition : PreparedTaskDefinition} {creator : String}
    {maxRuns : Option Int} {next : Time} {key : Option String} {row : AutomationRow}
    (h : db.Timely clock) (hclock : clock < now)
    (hc : create db definition creator maxRuns next now key = .ok (db', row)) :
    db'.Timely now := by
  have hid (row : AutomationRow) : row.Timely db → (id row).Timely db := fun h => h
  unfold create at hc
  split at hc
  · split at hc
    · cases hc
    · cases hc
      exact h.edit hclock.le rfl (fun k => by simp) fun row _ => hid row
  · simp only [bind_eq_ok, require_eq_ok, pure_eq_ok, Prod.mk.injEq] at hc
    obtain ⟨_, -, _, -, _, -, rfl, rfl⟩ := hc
    refine ⟨fun r hr => ?_, fun r hr => ?_, fun row hrow => ?_⟩
    · obtain ⟨row, hrow⟩ := h.owned r hr
      exact ⟨row, Table.get?_insert_of_some hrow⟩
    · have hpast := h.past r hr
      linarith
    · rcases Table.mem_insert.mp hrow with hold | ⟨rfl, hfresh⟩
      · exact ⟨(h.rows row hold).active, (h.rows row hold).terminal, (h.rows row hold).runs⟩
      · refine ⟨fun _ => Option.some_ne_none _, fun ht => ?_, fun _ _ r hr ha => ?_⟩
        · rcases ht with ht | ht <;> cases ht
        · obtain ⟨owner, howner⟩ := h.owned r hr
          rw [ha] at howner
          exact absurd (Table.get?_isSome.mp ⟨owner, howner⟩) hfresh

/-- A published task keeps its occurrence, takes one in the future, or ends. -/
theorem published_timely {row : AutomationRow} {next : Option Time}
    {maxRuns : Option (Option Int)} {running : Bool} (h : db.Timely clock) (ht : row.Timely db)
    (hopen : ¬ row.terminal) (hnext : ∀ n, next = some n → clock < n) :
    (published row now next maxRuns running).Timely db := by
  have hkept : ({ row with nextRunAt := next.or row.nextRunAt, updatedAt := now } :
      AutomationRow).Timely db := by
    cases next with
    | none => exact ht.same rfl rfl rfl
    | some n => exact h.later rfl (hnext n rfl) hopen
  unfold published
  dsimp only
  split
  · exact hkept
  split
  · exact .vacant rfl AutomationStatus.noConfusion
  · exact hkept.same rfl rfl rfl

theorem update_timely {cal : Calendar} {id : Nat} {trigger : Schedule} {scriptHash : String}
    {authority : AutomationScene} {maxRuns : Option (Option Int)} {record : AutomationRecord}
    (h : db.Timely clock) (hclock : clock < now)
    (hu : updateTask cal db now id trigger scriptHash authority maxRuns = .ok (db', record)) :
    db'.Timely now := by
  simp only [updateTask, bind_eq_ok, expect_eq_ok, checkMaxRuns, require_eq_ok] at hu
  obtain ⟨row, hrow, version, -, _, -, prepared, -, next, hnext, owner, -, hu⟩ := hu
  have hlater (n : Time) (hn : next = some n) : clock < n := by
    rcases onlyIf_eq_ok.mp hnext with ⟨-, hi⟩ | ⟨-, rfl⟩
    · obtain ⟨m, hm, rfl⟩ := map_eq_ok.mp hi
      have hlt := lt_initialRunAt hm
      obtain rfl := Option.some.inj hn
      linarith
    · cases hn
  split at hu
  · next written _ hpub =>
    simp only [pure_eq_ok, Prod.mk.injEq] at hu
    obtain ⟨rfl, -⟩ := hu
    unfold publishTask at hpub
    split at hpub
    · cases hpub
    · next found hfound =>
      dsimp only at hpub
      split at hpub
      · cases hpub
      · next hopen =>
        cases hpub
        have hget := (Option.filter_eq_some_iff.mp hfound).1
        have hid (r : AutomationRow) := published_id r now next maxRuns
          (decide (db.runningCount id ≠ 0))
        refine h.edit hclock.le rfl (Table.get?_update _ _ _ hid) fun r hr ht => ?_
        by_cases hp : r.id = id
        · have he : r = found := by
            have hself := Table.mem_rows.mp hr
            rw [hp] at hself
            exact Option.some.inj (hself.symm.trans hget)
          rw [if_pos (by simp [hp])]
          exact published_timely h ht (he ▸ hopen) hlater
        · rw [if_neg (by simp [hp])]
          exact ht
  · simp at hu

theorem transition_timely {id : Nat} {action : Transition} {changed : Bool}
    (h : db.Timely clock) (hclock : clock < now)
    (ht : transitionStatus db now id action = .ok (db', changed)) : db'.Timely now := by
  simp only [transitionStatus, bind_eq_ok, expect_eq_ok] at ht
  obtain ⟨current, hcurrent, creator, -, ht⟩ := ht
  cases action with
  | pause =>
    cases ht
    refine h.update hclock.le _ fun row _ _ hrow => ?_
    refine ⟨fun he => ?_, fun he => ?_, hrow.runs⟩
    · cases he
    · rcases he with he | he <;> cases he
  | resume =>
    cases ht
    refine h.update hclock.le _ fun row hmem hp hrow => ?_
    simp only [Bool.and_eq_true, beq_iff_eq] at hp
    have he : row = current := by
      have hself := Table.mem_rows.mp hmem
      rw [hp.1.1] at hself
      exact Option.some.inj (hself.symm.trans hcurrent)
    subst he
    cases hnext : row.nextRunAt with
    | none =>
      refine h.later rfl hclock fun ht => ?_
      rcases ht with ht | ht <;> cases ht
    | some n =>
      refine ⟨fun _ => Option.some_ne_none _, fun he => ?_, fun m hm => ?_⟩
      · rcases he with he | he <;> cases he
      · exact hrow.runs m (hnext.trans hm)
  | cancel =>
    cases ht
    exact h.update hclock.le _ fun row _ _ _ => .vacant rfl AutomationStatus.noConfusion

theorem runNow_timely {id : Nat} {changed : Bool} (h : db.Timely clock) (hclock : clock < now)
    (hr : runNow db now id = .ok (db', changed)) : db'.Timely now := by
  simp only [runNow, bind_eq_ok, expect_eq_ok] at hr
  obtain ⟨current, -, creator, -, hr⟩ := hr
  cases hr
  refine h.update hclock.le _ fun row _ _ _ => h.later rfl hclock fun ht => ?_
  rcases ht with ht | ht <;> cases ht

theorem claimDue_timely {workerId : String} {enabled : Bool} {timestamp leaseSeconds : Time}
    {candidates : List Nat} (h : db.Timely clock) (hclock : clock < now) :
    (claimDue db workerId enabled timestamp now leaseSeconds candidates).1.Timely now :=
  h.update hclock.le _ fun _ _ _ hrow => hrow.same rfl rfl rfl

/-- The records handed out are due. -/
theorem claimDue_due {workerId : String} {enabled : Bool} {timestamp leaseSeconds : Time}
    {candidates : List Nat} {c : AutomationRecord} {next : Time}
    (hc : c ∈ (claimDue db workerId enabled timestamp now leaseSeconds candidates).2)
    (hnext : c.nextRunAt = some next) : next ≤ timestamp := by
  obtain ⟨id, -, hid⟩ := List.mem_filterMap.mp hc
  obtain ⟨row, hrow, hrec⟩ := Option.bind_eq_some_iff.mp hid
  obtain ⟨version, -, rfl⟩ := Option.map_eq_some_iff.mp hrec
  have hp := (Option.filter_eq_some_iff.mp hrow).2
  have hn : row.nextRunAt = some next := hnext
  simp only [claimable, dueAt, hn, Option.any_some, Bool.and_eq_true, decide_eq_true_eq] at hp
  exact hp.1.2.2.1

/-- `create_run` keeps the occurrences timely; it never finds its own occurrence ended. -/
theorem createRun_timely {id : Nat} {scheduledFor startedAt : Time} {workerId : String}
    {versionId : Option Nat} {r : Option RunRow} (h : db.Timely clock) (hclock : clock < now)
    (hdue : scheduledFor ≤ clock)
    (hc : createRun db id scheduledFor startedAt now (some workerId) versionId = .ok (db', r)) :
    db'.Timely now := by
  obtain ⟨owner, howner, hc⟩ := createRun_cases hc
  rcases hc with ⟨-, rfl⟩ | ⟨hmay, hc⟩
  · exact h.edit hclock.le rfl (fun k => by simp) fun row _ ht => ht
  have hmem := Table.get?_mem howner
  have hkey := Table.get?_key howner
  have hnext := (mayCreate_active hmay).2
  rcases hc with ⟨-, ⟨run, hrun, ha, hs, hended⟩, -, -⟩ | ⟨-, rfl⟩ | ⟨version, -, hocc, -, rfl⟩
  · have hrunning := ((h.rows owner hmem).runs _ hnext run hrun (ha.trans hkey.symm)).2 hs
    exact absurd hrunning hended
  · exact h.update hclock.le _ fun row _ _ _ => .vacant rfl AutomationStatus.noConfusion
  · have hid : (newRun db id version.id scheduledFor startedAt).id =
        nextKey (db.runs.rows.map RunRow.id) := rfl
    have hrows := runs_insert hid
    refine ⟨fun r hr => ?_, fun r hr => ?_, fun row hrow => ⟨?_, ?_, fun next hn r hr ha => ?_⟩⟩
    · rw [hrows, List.mem_append, List.mem_singleton] at hr
      rcases hr with hr | rfl
      · exact h.owned r hr
      · exact ⟨owner, howner⟩
    · rw [hrows, List.mem_append, List.mem_singleton] at hr
      rcases hr with hr | rfl
      · have hpast := h.past r hr
        linarith
      · exact le_trans hdue hclock.le
    · exact (h.rows row hrow).active
    · exact (h.rows row hrow).terminal
    · rw [hrows, List.mem_append, List.mem_singleton] at hr
      rcases hr with hr | rfl
      · exact (h.rows row hrow).runs next hn r hr ha
      · have he : row = owner := by
          have hself := Table.mem_rows.mp hrow
          rw [← show id = row.id from ha] at hself
          exact Option.some.inj (hself.symm.trans howner)
        subst he
        obtain rfl := Option.some.inj (hnext.symm.trans hn)
        exact ⟨le_rfl, fun _ => rfl⟩

/-- Where ending `run` leaves its automation: as it was, without a next occurrence, or moved on
from the run's own one. -/
theorem afterRun_cases (row : AutomationRow) (run : RunRow) (status : RunStatus)
    (timestamp : Time) (next : Option Time) :
    let after := afterRun row run status timestamp next
    (after.status = row.status ∧ after.nextRunAt = row.nextRunAt ∧
        (row.terminal ∨ row.nextRunAt ≠ some run.scheduledFor)) ∨
      (after.nextRunAt = none ∧ after.status ≠ .active) ∨
      (row.nextRunAt = some run.scheduledFor ∧ after.nextRunAt = next ∧ next ≠ none ∧
        ¬ after.terminal) := by
  intro after
  by_cases hterminal : row.status = .cancelled ∨ row.status = .completed
  · have ha : after = { row with
        lastRunAt := some timestamp, runCount := row.runCount + 1, updatedAt := timestamp } :=
      if_pos hterminal
    rw [ha]
    exact .inl ⟨rfl, rfl, .inl hterminal⟩
  have hopen : ¬ row.terminal := hterminal
  simp only [after, afterRun, if_neg hterminal]
  split
  · exact .inr (.inl ⟨rfl, AutomationStatus.noConfusion⟩)
  split
  · next hown =>
    cases next with
    | none =>
      refine .inr (.inl ?_)
      split
      · next hpaused => exact ⟨rfl, by simp [hpaused]⟩
      split
      · exact ⟨rfl, AutomationStatus.noConfusion⟩
      · refine ⟨rfl, ?_⟩
        rw [if_pos rfl]
        split <;> exact AutomationStatus.noConfusion
    | some n =>
      refine .inr (.inr ⟨hown, ?_⟩)
      split
      · exact ⟨rfl, Option.some_ne_none n, hopen⟩
      split
      · refine ⟨rfl, Option.some_ne_none n, fun h => ?_⟩
        rcases h with h | h <;> cases h
      · exact ⟨rfl, Option.some_ne_none n, hopen⟩
  · next hother => exact .inl ⟨rfl, rfl, .inr hother⟩

theorem nextScheduled_later {os : Platform} {runId : Nat} {timestamp n : Time} {run : RunRow}
    (hrun : db.runs.get? runId = some run)
    (h : nextScheduled os db runId timestamp = .ok (some n)) : run.scheduledFor < n := by
  simp only [nextScheduled, hrun, Option.bind_some] at h
  split at h
  · cases h
  · next accepted haccepted =>
    obtain ⟨version, -, he⟩ := Option.map_eq_some_iff.mp haccepted
    cases he
    split at h
    · exact lt_scheduleAfterCompletion h
    · cases h

theorem finishRun_timely {os : Platform} {runId : Nat} {report : RunReport}
    {workerId : Option String} {closed : Bool} (h : db.Timely clock) (hclock : clock < now)
    (hf : finishRun os db db runId report workerId = .ok (db', closed)) : db'.Timely now := by
  have hsame : db.Timely now := h.edit hclock.le rfl (fun k => by simp) fun row _ ht => ht
  obtain ⟨next, hnext, ⟨rfl, -, -⟩ | ⟨run, hrun, -, rfl, rfl, -⟩⟩ := finishRun_cases hf
  · exact hsame
  -- A run of the new table is an old one, or the ended one under its old key.
  have hback (r : RunRow) (hr : r ∈ db.runs.rows.map fun r =>
      if r.id == run.id then ended os r report else r) : ∃ old ∈ db.runs.rows,
        r.automationId = old.automationId ∧ r.scheduledFor = old.scheduledFor ∧
        (r = old ∨ old = run) := by
    obtain ⟨old, hold, rfl⟩ := List.mem_map.mp hr
    refine ⟨old, hold, ?_⟩
    by_cases hp : old.id = run.id
    · have he : old = run := by
        have hself := Table.mem_rows.mp hold
        rw [hp] at hself
        exact Option.some.inj (hself.symm.trans hrun)
      rw [if_pos (by simp [hp])]
      exact ⟨rfl, rfl, .inr he⟩
    · rw [if_neg (by simp [hp])]
      exact ⟨rfl, rfl, .inl rfl⟩
  have hget := Table.get?_update db.automations (fun r => r.id == run.automationId)
    (fun r => afterRun r run report.status report.finishedAt next) fun r =>
      afterRun_id r run report.status report.finishedAt next
  refine ⟨fun r hr => ?_, fun r hr => ?_, fun row hrow => ?_⟩
  · obtain ⟨old, hold, ha, -, -⟩ := hback r hr
    obtain ⟨row, hrow⟩ := h.owned old hold
    have hrow' := hget r.automationId
    rw [ha, hrow] at hrow'
    exact ⟨_, ha ▸ hrow'⟩
  · obtain ⟨old, hold, -, hs, -⟩ := hback r hr
    have hpast := h.past old hold
    linarith
  obtain ⟨old, hold, he⟩ := List.mem_map.mp hrow
  have htimely := h.rows old hold
  by_cases hp : old.id = run.automationId
  · rw [if_pos (by simp [hp])] at he
    subst he
    have hafter := afterRun_cases old run report.status report.finishedAt next
    dsimp only at hafter
    rcases hafter with ⟨hstatus, hn, hother⟩ | ⟨hn, hactive⟩ | ⟨hown, hn, hsome, hopen⟩
    · refine ⟨by rw [hstatus, hn]; exact htimely.active, fun ht => ?_, fun m hm r hr ha => ?_⟩
      · rw [hn]
        rw [AutomationRow.terminal, hstatus] at ht
        exact htimely.terminal ht
      · rw [hn] at hm
        rw [afterRun_id] at ha
        obtain ⟨r', hr', ha', hs', hcase⟩ := hback r hr
        have hrun' := htimely.runs m hm r' hr' (ha'.symm.trans ha)
        rw [hs']
        refine ⟨hrun'.1, fun heq => ?_⟩
        rcases hcase with rfl | rfl
        · exact hrun'.2 heq
        · rcases hother with ht | hne
          · rw [htimely.terminal ht] at hm
            cases hm
          · exact absurd (hm.trans (congrArg some heq.symm)) hne
    · exact .vacant hn hactive
    · obtain ⟨m, rfl⟩ := Option.ne_none_iff_exists'.mp hsome
      have hlater := nextScheduled_later hrun hnext
      refine ⟨fun _ => by simp [hn], fun ht => absurd ht hopen, fun n hm r hr ha => ?_⟩
      obtain rfl := Option.some.inj (hn.symm.trans hm)
      rw [afterRun_id] at ha
      obtain ⟨r', hr', ha', hs', -⟩ := hback r hr
      have hle := (htimely.runs _ hown r' hr' (ha'.symm.trans ha)).1
      rw [hs']
      exact ⟨by linarith, fun heq => absurd heq (by linarith)⟩
  · rw [if_neg (by simp [hp])] at he
    subst he
    refine ⟨htimely.active, htimely.terminal, fun m hm r hr ha => ?_⟩
    obtain ⟨r', hr', ha', hs', hcase⟩ := hback r hr
    have hrun' := htimely.runs m hm r' hr' (ha'.symm.trans ha)
    rw [hs']
    refine ⟨hrun'.1, fun heq => ?_⟩
    rcases hcase with rfl | rfl
    · exact hrun'.2 heq
    · exact absurd (ha'.symm.trans ha).symm hp

end

section

variable {os : Platform} {w w' : AutomationWorld}

/-- Claims stay due while the clock runs. -/
theorem AutomationWorld.Timely.advance (h : w.Timely) {db : AutomationDb} {now : Time}
    (hclock : w.clock < now) (hdb : db.Timely now) :
    ({ w with db := db, clock := now } : AutomationWorld).Timely :=
  ⟨hdb, fun c hc next hn => le_trans (h.claims c hc next hn) hclock.le⟩

theorem AutomationWorld.Timely.step (h : w.Timely) (hstep : ServiceStep os w w') : w'.Timely := by
  cases hstep with
  | create now creator trigger timezone scriptHash authority maxRuns key hclock hc =>
    simp only [createTask, bind_eq_ok] at hc
    obtain ⟨_, -, prepared, -, next, -, hc⟩ := hc
    exact h.advance hclock (create_timely h.db hclock hc)
  | update now id trigger scriptHash authority maxRuns hclock hu =>
    exact h.advance hclock (update_timely h.db hclock hu)
  | transition now id action hclock ht =>
    exact h.advance hclock (transition_timely h.db hclock ht)
  | runNow now id hclock hr => exact h.advance hclock (runNow_timely h.db hclock hr)
  | claimDue now timestamp leaseSeconds workerId enabled after hclock htime =>
    refine ⟨claimDue_timely h.db hclock, fun c hc next hn => ?_⟩
    rcases List.mem_append.mp hc with hc | hc
    · exact le_trans (h.claims c hc next hn) hclock.le
    · exact le_trans (claimDue_due hc hn) htime
  | releaseClaim now id workerId notBefore hclock =>
    exact h.advance hclock (h.db.update hclock.le _ fun _ _ _ hrow => hrow.same rfl rfl rfl)
  | renewClaim now leaseSeconds id workerId hclock =>
    exact h.advance hclock (h.db.update hclock.le _ fun _ _ _ hrow => hrow.same rfl rfl rfl)
  | createRun now startedAt record scheduledFor workerId hclock hmem hnext _ hc =>
    exact h.advance hclock (createRun_timely h.db hclock (h.claims record hmem _ hnext) hc)
  | finishRun now runId report workerId hclock _ hf =>
    exact h.advance hclock (finishRun_timely h.db hclock hf)

theorem AutomationWorld.Timely.run (h : w.Timely)
    (hrun : Relation.ReflTransGen (ServiceStep os) w w') : w'.Timely := by
  induction hrun with
  | refl => exact h
  | tail _ hstep ih => exact ih.step hstep

/-- In every state the operations reach from an empty repository, an active automation has a next
occurrence and no ended run at it, so `create_run` never clears the occurrence of an active one. -/
theorem active_automations_due {clock : Time} {host : Db} {enabledPersons presences : List String}
    (hrun : Relation.ReflTransGen (ServiceStep os)
      ⟨{ host := host, enabledPersons := enabledPersons, presences := presences }, clock, []⟩ w) :
    (∀ row ∈ w.db.automations.rows, row.status = .active → ∃ next, row.nextRunAt = some next ∧
      ∀ r ∈ w.db.runs.rows, r.automationId = row.id → r.status ≠ .running →
        r.scheduledFor ≠ next) ∧
    (∀ record ∈ w.claims, ∀ scheduledFor, record.nextRunAt = some scheduledFor →
      ∀ workerId startedAt now db r,
        createRun w.db record.id scheduledFor startedAt now (some workerId)
          (some record.versionId) = .ok (db, r) →
        ∀ row, w.db.automations.get? record.id = some row → row.status = .active →
          ∃ row', db.automations.get? record.id = some row' ∧
            (row'.nextRunAt = row.nextRunAt ∨ row'.status = .completed)) := by
  have hw : w.Timely := by
    refine AutomationWorld.Timely.run ⟨⟨fun _ hr => ?_, fun _ hr => ?_, fun _ hr => ?_⟩,
      fun _ hc => ?_⟩ hrun
    · exact (List.not_mem_nil hr).elim
    · exact (List.not_mem_nil hr).elim
    · exact (List.not_mem_nil hr).elim
    · exact (List.not_mem_nil hc).elim
  constructor
  · intro row hrow hactive
    have ht := hw.db.rows row hrow
    obtain ⟨next, hnext⟩ := Option.ne_none_iff_exists'.mp (ht.active hactive)
    exact ⟨next, hnext, fun r hr ha hended he => hended ((ht.runs next hnext r hr ha).2 he)⟩
  · intro record _ scheduledFor _ workerId startedAt now db r hc row hrow _
    obtain ⟨owner, howner, hc⟩ := createRun_cases hc
    obtain rfl := Option.some.inj (hrow.symm.trans howner)
    rcases hc with ⟨-, rfl⟩ | ⟨hmay, hc⟩
    · exact ⟨row, hrow, .inl rfl⟩
    rcases hc with ⟨-, ⟨run, hr, ha, hs, hended⟩, hnext, -⟩ | ⟨-, rfl⟩ | ⟨version, -, -, -, rfl⟩
    · have hkey := Table.get?_key hrow
      have hmem := Table.get?_mem hrow
      have hrunning := ((hw.db.rows row hmem).runs _ hnext run hr (ha.trans hkey.symm)).2 hs
      exact absurd hrunning hended
    · have hkey := Table.get?_key hrow
      refine ⟨{ row with status := .completed, nextRunAt := none }, ?_, .inr rfl⟩
      unfold AutomationDb.updateAutomations
      dsimp only
      rw [Table.get?_update, hrow, Option.map_some, if_pos (by simp [hkey])]
    · exact ⟨row, hrow, .inl rfl⟩

/-- A task of every minute runs late once; its next occurrence is a minute after that run's end. -/
theorem active_automations_due_late : ∃ w : AutomationWorld,
    Relation.ReflTransGen (ServiceStep utcPlatform) ⟨{ presences := ["p"] }, 0, []⟩ w ∧
      (w.db.automations.rows.any fun row => row.status == .active && row.nextRunAt == some 140) =
        true ∧
      ∀ row ∈ w.db.automations.rows, row.status = .active → ∃ next, row.nextRunAt = some next ∧
        ∀ r ∈ w.db.runs.rows, r.automationId = row.id → r.status ≠ .running →
          r.scheduledFor ≠ next := by
  let w₀ : AutomationWorld := ⟨{ presences := ["p"] }, 0, []⟩
  let created := createTask utcCalendar w₀.db 1 "self" (.interval 60 (by decide)) "UTC" "h"
    ⟨"self", none, "p"⟩ none none
  let w₁ : AutomationWorld := { w₀ with db := leaves w₀.db created, clock := 1 }
  let claimed := claimDue w₁.db "a" true 70 70 60
    ((claimPage w₁.db true 70 none).map Prod.snd)
  let w₂ : AutomationWorld := { db := claimed.1, clock := 70, claims := claimed.2 }
  let record : AutomationRecord :=
    { id := 1, versionId := 1, claimedBy := some "a", status := .active, timezone := "Asia/Shanghai",
      schedule := .interval 60 (by decide), scriptHash := "h", nextRunAt := some 61, runCount := 0,
      maxRuns := none, creationMaxRuns := none }
  let run := createRun w₂.db 1 61 72 72 (some "a") (some 1)
  let w₃ : AutomationWorld := { w₂ with db := leaves w₂.db run, clock := 72 }
  let report : RunReport := ⟨.succeeded, 1, 0, 0, none, .obj [], 80⟩
  let finished := finishRun utcPlatform w₃.db w₃.db 1 report none
  let w₄ : AutomationWorld := { w₃ with db := leaves w₃.db finished, clock := 81 }
  have hrun : Relation.ReflTransGen (ServiceStep utcPlatform) w₀ w₄ := by
    have hlt (a b : Time) (h : decide (a < b) = true) : a < b := of_decide_eq_true h
    obtain ⟨_, hcreated⟩ := eq_ok_leaves w₀.db created (by decide +kernel)
    obtain ⟨_, hran⟩ := eq_ok_leaves w₂.db run (by decide +kernel)
    obtain ⟨_, hfinished⟩ := eq_ok_leaves w₃.db finished (by decide +kernel)
    have h₁ : ServiceStep utcPlatform w₀ w₁ :=
      .create 1 _ _ _ _ _ _ _ (hlt _ _ (by decide +kernel)) hcreated
    have h₂ : ServiceStep utcPlatform w₁ w₂ :=
      .claimDue 70 70 60 "a" true none (hlt _ _ (by decide +kernel)) le_rfl
    have h₃ : ServiceStep utcPlatform w₂ w₃ :=
      .createRun 72 72 record 61 "a" (hlt _ _ (by decide +kernel)) (by decide +kernel) rfl rfl hran
    have h₄ : ServiceStep utcPlatform w₃ w₄ :=
      .finishRun 81 1 report none (hlt _ _ (by decide +kernel)) RunStatus.noConfusion hfinished
    exact (((Relation.ReflTransGen.single h₁).tail h₂).tail h₃).tail h₄
  exact ⟨w₄, hrun, by decide +kernel, (active_automations_due hrun).1⟩

end

end Yuki

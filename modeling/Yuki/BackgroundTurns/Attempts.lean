import Yuki.BackgroundTurns.Jobs
import Yuki.Runtime.Lifecycle

/-! What one operation can do to a turn job and to its Work. -/

namespace Yuki.BackgroundTurns

inductive TurnOp
  | publish (now : Time) (r : TurnRequest)
  | claimTurn (seen : Store) (c : Scene) (then_ now lease : Time)
  | reconcileTerminalTurns (seen : Store) (now : Time) (after : Option Nat)
  | validateTurnAttempt (c : Scene) (now : Time) (id attempt : Nat) (generation : Int) (lease : Time)
  | finishTurn (c : Scene) (now : Time) (id attempt : Nat) (generation toolCallsUsed
      modelRequests : Int)
  | failTurn (now : Time) (id attempt : Nat) (errorCategory : String)
  | abandonTurn (now : Time) (id attempt : Nat) (errorCategory : String)
  | parkTurn (now : Time) (id attempt : Nat) (errorCategory : String)
  | deferTurn (now : Time) (id attempt : Nat) (errorCategory : String) (delaySeconds : Time)
      (preserveBudget : Bool)
  | loadBackgroundContext (seen : Store) (before c : Scene) (now : Time)
      (job : BackgroundTurnJobRecord) (workId : Option String)
  | admitBackgroundTurnWork (c : Scene) (now : Time) (lease : WorkLease) (a : TurnAdmission)
      (fresh : String)
  | revokeTarget (now : Time) (g : RevokedGrant)

/-- The state an operation commits, and the attempt that a claim hands out. -/
def TurnOp.exec (s : Store) : TurnOp → Store × Option BackgroundTurnJobRecord
  | .publish now r => (publishTurn s now r, none)
  | .claimTurn seen c then_ now lease => BackgroundTurns.claimTurn seen s c then_ now lease
  | .reconcileTerminalTurns seen now after =>
    (BackgroundTurns.reconcileTerminalTurns seen s now after, none)
  | .validateTurnAttempt c now id attempt generation lease =>
    (BackgroundTurns.validateTurnAttempt s c now id attempt generation lease, none)
  | .finishTurn c now id attempt generation toolCallsUsed modelRequests =>
    (BackgroundTurns.finishTurn s c now id attempt generation toolCallsUsed modelRequests, none)
  | .failTurn now id attempt errorCategory =>
    (BackgroundTurns.failTurn s now id attempt errorCategory, none)
  | .abandonTurn now id attempt errorCategory =>
    (BackgroundTurns.abandonTurn s now id attempt errorCategory, none)
  | .parkTurn now id attempt errorCategory =>
    (BackgroundTurns.parkTurn s now id attempt errorCategory, none)
  | .deferTurn now id attempt errorCategory delaySeconds preserveBudget =>
    (BackgroundTurns.deferTurn s now id attempt errorCategory delaySeconds preserveBudget, none)
  | .loadBackgroundContext seen before c now job workId =>
    (BackgroundTurns.loadBackgroundContext seen s before c now job workId, none)
  | .admitBackgroundTurnWork c now lease a fresh =>
    (BackgroundTurns.admitBackgroundTurnWork s c now lease a fresh, none)
  | .revokeTarget now g => (BackgroundTurns.revokeTarget s now g, none)

/-- The Work bound to a job is in a terminal state, if it exists. -/
def WorkEnded (db : Db) (workId : Option String) : Prop :=
  ∀ id w, workId = some id → db.works.get? id = some w → w.state.terminal = true

/-- The Work bound to a job exists and is neither ended nor paused. -/
def WorkRunnable (db : Db) (workId : Option String) : Prop :=
  ∀ id, workId = some id → ∃ w, db.works.get? id = some w ∧ (w.state = .queued ∨ w.state = .running)

/-- The job is in the state in which a claim may take it. -/
def JobRow.isOpen (row : JobRow) : Prop :=
  row.status = .pending ∨ row.status = .processing

/-- The operation gives the attempt of a job back. -/
def TurnOp.givesBack : TurnOp → JobRow → Bool
  | .parkTurn _ id attempt _, row =>
    row.id = id && ownsProcessingAttempt row attempt && row.workId.isSome
  | .deferTurn _ id attempt _ _ preserveBudget, row =>
    row.id = id && ownsProcessingAttempt row attempt && preserveBudget
  | _, _ => false

/-- The row a claim selects. -/
def claimed (seen s : Store) (then_ now : Time) : Option JobRow :=
  ((claimCandidate seen then_).bind s.jobs.get?).filter fun row => claimSelect s.db now row

/-- A claim or a `defer_turn` leaves a job open that has used up its attempts. -/
def TurnOp.overruns (s : Store) : TurnOp → JobRow → Bool
  | .claimTurn seen _ then_ now _, row =>
    (claimed seen s then_ now).any (fun r => r.id = row.id) && row.status = .processing &&
      row.maxAttempts ≤ row.attempts &&
      !(row.workId.isSome && (linkedWorkUsage s.db row).all (·.state.terminal))
  | .deferTurn _ id attempt _ _ preserveBudget, row =>
    row.id = id && ownsProcessingAttempt row attempt && !preserveBudget &&
      row.maxAttempts ≤ row.attempts
  | _, _ => false

/-- Everything one operation can do to a job. -/
inductive JobChange (o : TurnOp) (s s' : Store) (row row' : JobRow) : Prop
  | kept (status : row'.status = row.status) (attempts : row'.attempts = row.attempts)
      (most : row'.maxAttempts = row.maxAttempts) (workId : row'.workId = row.workId)
      (none_ : o.givesBack row = false)
  | taken (before : row.isOpen) (within : o.overruns s row = false → row.status = .processing →
        row.attempts < row.maxAttempts)
      (runnable : WorkRunnable s'.db row.workId)
      (status : row'.status = .processing) (attempts : row'.attempts = row.attempts + 1)
      (most : row'.maxAttempts = row.maxAttempts) (workId : row'.workId = row.workId)
      (none_ : o.givesBack row = false)
  | released (before : row.status = .processing) (status : row'.status = .pending)
      (attempts : row'.attempts = row.attempts)
      (most : row'.maxAttempts = row.maxAttempts + if o.givesBack row then 1 else 0)
      (within : o.overruns s row = false → o.givesBack row = false →
        row.attempts < row.maxAttempts)
      (workId : row'.workId = row.workId)
  | bound (before : row.status = .processing) (status : row'.status = .processing)
      (attempts : row'.attempts = row.attempts) (most : row'.maxAttempts = row.maxAttempts)
      (workId : row.workId = none ∨ row'.workId = row.workId)
      (exists_ : ∃ id w, row'.workId = some id ∧ s'.db.works.get? id = some w)
      (none_ : o.givesBack row = false)
  | ended (before : row.isOpen)
      (attempts : row'.attempts = row.attempts ∨ row'.attempts = row.attempts + 1 ∧
        (o.overruns s row = false → row.status = .processing → row.attempts < row.maxAttempts))
      (most : row'.maxAttempts = row.maxAttempts) (workId : row'.workId = row.workId)
      (status : row'.status = .completed ∨
        (row'.status = .failed ∨ row'.status = .cancelled) ∧ WorkEnded s'.db row'.workId)
      (none_ : o.givesBack row = false)
  | revoked (op : ∃ now g, o = .revokeTarget now g ∧ g.matches row = true)
      (attempts : row'.attempts = row.attempts) (most : row'.maxAttempts = row.maxAttempts)
      (workId : row'.workId = row.workId) (status : row'.status = .cancelled)

/-- A job as it is published. -/
structure JobRow.Unclaimed (row : JobRow) : Prop where
  attempts : row.attempts = 0
  most : row.maxAttempts = 3
  workId : row.workId = none
  status : row.status ≠ .processing

/-- Every job stays, changed as an operation may change it, and new ones are unclaimed. -/
structure Changes (o : TurnOp) (s s' : Store) : Prop where
  old : ∀ id row, s.jobs.get? id = some row →
    ∃ row', s'.jobs.get? id = some row' ∧ JobChange o s s' row row'
  new : ∀ id row, s.jobs.get? id = none → s'.jobs.get? id = some row → row.Unclaimed

theorem get?_put (s : Store) (row : JobRow) (id : Nat) :
    (s.put row).jobs.get? id =
      (s.jobs.get? id).map fun r => if r.id = row.id then { row with id := r.id } else r := by
  simp [Store.put, Table.get?_update]

/-- One row is written, and the others stay. -/
theorem changes_put {o : TurnOp} {s : Store} {db : Db} {row new : JobRow}
    (hget : s.jobs.get? row.id = some row) (hid : new.id = row.id)
    (hnone : ∀ r, r.id ≠ row.id → o.givesBack r = false)
    (h : JobChange o s ({ s with db := db }.put new) row new) :
    Changes o s ({ s with db := db }.put new) := by
  refine ⟨fun id r hr => ?_, fun id r hr hr' => by rw [get?_put, hr] at hr'; cases hr'⟩
  have hrid := Table.get?_key hr
  rw [get?_put, hr]
  by_cases heq : r.id = row.id
  · have hrow : r = row := by
      rw [← hrid, heq, hget] at hr
      exact (Option.some.inj hr).symm
    subst hrow
    refine ⟨new, ?_, h⟩
    rw [Option.map_some, if_pos hid.symm, ← hid]
  · exact ⟨r, by simp [hid, heq], .kept rfl rfl rfl rfl (hnone r heq)⟩

theorem changes_refl {o : TurnOp} {s : Store} (h : ∀ row ∈ s.jobs.rows, o.givesBack row = false) :
    Changes o s s :=
  ⟨fun _ row hrow => ⟨row, hrow, .kept rfl rfl rfl rfl (h row (Table.get?_mem hrow))⟩,
    fun _ _ hnone hsome => by rw [hnone] at hsome; cases hsome⟩

/-! Closing a Work. -/

theorem closeLinkedWork_lasting (db : Db) (now : Time) (identity : String) (state : WorkState)
    (reason : String) : Lasting none db (closeLinkedWork db now identity state reason) := by
  refine (stopOwnedExecution_lasting db now identity (some reason)).trans ?_
  refine .update (Table.get?_update _ _ _ (by intro; rfl)) (fun _ h => h) fun _ w _ hp ht => ?_
  simp only [Bool.and_eq_true, Bool.not_eq_true'] at hp
  rw [hp.2] at ht
  cases ht

theorem closeLinkedWork_ended {db : Db} {now : Time} {identity : String} {state : WorkState}
    {reason : String} (h : state.terminal = true) :
    WorkEnded (closeLinkedWork db now identity state reason) (some identity) := by
  rintro id w ⟨rfl⟩ hw
  unfold closeLinkedWork at hw
  dsimp only at hw
  rw [Table.get?_update, Option.map_eq_some_iff] at hw
  obtain ⟨v, hv, rfl⟩ := hw
  split
  · exact h
  · next hp =>
    simp only [Table.get?_key hv, decide_true, Bool.true_and, Bool.not_eq_true',
      Bool.not_eq_false] at hp
    exact hp

theorem Retirement.terminal (r : Retirement) : r.workState.terminal = true := by
  cases r <;> rfl

/-- The database after a retirement. -/
def retiredDb (db : Db) (now : Time) (row : JobRow) (status : Retirement) (category : String)
    (workAs : Option Retirement) : Db :=
  match row.workId with
  | none => db
  | some identity => closeLinkedWork db now identity (workAs.getD status).workState category

theorem retiredDb_lasting (db : Db) (now : Time) (row : JobRow) (status : Retirement)
    (category : String) (workAs : Option Retirement) :
    Lasting none db (retiredDb db now row status category workAs) := by
  unfold retiredDb
  split
  · exact .refl db
  · exact closeLinkedWork_lasting ..

theorem retiredDb_ended (db : Db) (now : Time) (row : JobRow) (status : Retirement)
    (category : String) (workAs : Option Retirement) :
    WorkEnded (retiredDb db now row status category workAs) row.workId := by
  unfold retiredDb
  split
  · next h =>
    rw [h]
    rintro id w ⟨⟩
  · next identity h =>
    rw [h]
    exact closeLinkedWork_ended (Retirement.terminal _)

@[simp] theorem keepActualUsage_id (row : JobRow) (usage : Option WorkRow) :
    (keepActualUsage row usage).id = row.id := by
  cases usage <;> rfl

@[simp] theorem keepActualUsage_attempts (row : JobRow) (usage : Option WorkRow) :
    (keepActualUsage row usage).attempts = row.attempts := by
  cases usage <;> rfl

@[simp] theorem keepActualUsage_maxAttempts (row : JobRow) (usage : Option WorkRow) :
    (keepActualUsage row usage).maxAttempts = row.maxAttempts := by
  cases usage <;> rfl

@[simp] theorem keepActualUsage_workId (row : JobRow) (usage : Option WorkRow) :
    (keepActualUsage row usage).workId = row.workId := by
  cases usage <;> rfl

@[simp] theorem keepActualUsage_status (row : JobRow) (usage : Option WorkRow) :
    (keepActualUsage row usage).status = row.status := by
  cases usage <;> rfl

/-- What an operation does to the jobs and the Works together. -/
structure Sound (o : TurnOp) (s s' : Store) : Prop where
  changes : Changes o s s'
  lasting : Lasting none s.db s'.db

/-- A retirement of a job, from a row that differs by the attempt it counts. -/
theorem retireTurn_sound {o : TurnOp} {s : Store} {now : Time} {row new : JobRow}
    {status : Retirement} {category : String} {workAs : Option Retirement}
    (hget : s.jobs.get? row.id = some row) (hid : new.id = row.id) (hopen : row.isOpen)
    (hattempts : new.attempts = row.attempts ∨ new.attempts = row.attempts + 1 ∧
      (o.overruns s row = false → row.status = .processing → row.attempts < row.maxAttempts))
    (hmost : new.maxAttempts = row.maxAttempts) (hwork : new.workId = row.workId)
    (hnone : ∀ r, r.id ≠ row.id → o.givesBack r = false) (hrow : o.givesBack row = false) :
    Sound o s (retireTurn s now new status category workAs) := by
  refine ⟨?_, retiredDb_lasting s.db now new status category workAs⟩
  refine changes_put hget (by simp [hid]) hnone ?_
  refine .ended hopen (by simpa using hattempts) (by simpa using hmost) (by simpa using hwork)
    (.inr ⟨?_, ?_⟩) hrow
  · cases status
    · exact .inl rfl
    · exact .inr rfl
  · show WorkEnded (retiredDb s.db now new status category workAs) (keepActualUsage new _).workId
    rw [keepActualUsage_workId]
    exact retiredDb_ended s.db now new status category workAs

theorem sound_refl {o : TurnOp} {s : Store} (h : ∀ row ∈ s.jobs.rows, o.givesBack row = false) :
    Sound o s s :=
  ⟨changes_refl h, .refl s.db⟩

/-! Each operation. -/

theorem insertWork_lasting {db mid : Db} {row : WorkRow}
    (h : WorkRepository.insertWork db row = .ok mid) : Lasting none db mid := by
  unfold WorkRepository.insertWork at h
  split at h
  · obtain rfl := Except.ok.inj h
    exact .refl _
  · simp only [bind_eq_ok, require_eq_ok, pure_eq_ok] at h
    obtain ⟨-, -, rfl⟩ := h
    exact ⟨fun id w hw => ⟨w, Table.get?_insert_of_some hw⟩, fun _ _ _ hn => hn,
      fun id w hw _ => ⟨w, Table.get?_insert_of_some hw, .inl rfl⟩⟩

theorem acceptInSession_lasting {db db' : Db} {now : Time} {lease : WorkLease} {a : Admission}
    {fresh : String} {row : WorkRow} (hhand : a.handoffFrom = none)
    (h : WorkRepository.acceptInSession db now lease a fresh = .ok (db', row)) :
    Lasting none db db' ∧ db'.works.get? row.id = some row := by
  simp only [WorkRepository.acceptInSession, bind_eq_ok, pure_eq_ok, expect_eq_ok] at h
  obtain ⟨-, -, -, -, -, -, -, -, mid, hins, found, hrow, -, -, -, -, handed, hh, h⟩ := h
  obtain ⟨rfl, rfl⟩ := Prod.mk.inj h
  rw [hhand] at hh
  obtain rfl := Except.ok.inj hh
  exact ⟨insertWork_lasting hins, Table.mem_rows.mp (List.mem_of_find?_eq_some hrow)⟩

section Operations

variable (s : Store)

/-- An operation on an owned attempt is sound if it is on the row of the attempt. -/
theorem owned_sound {o : TurnOp} {id attempt : Nat} {f : JobRow → Store}
    (hnone : ∀ r, (r.id = id → ownsProcessingAttempt r attempt = false) → o.givesBack r = false)
    (h : ∀ row, s.jobs.get? row.id = some row → row.id = id → ownsProcessingAttempt row attempt = true →
      Sound o s (f row)) : Sound o s (s.owned id attempt f) := by
  unfold Store.owned
  split
  · next row hget =>
    have hid := Table.get?_key hget
    split
    · next howns => exact h row (by rw [hid]; exact hget) hid howns
    · next howns =>
      refine sound_refl fun r hr => hnone r fun hrid => ?_
      have : s.jobs.get? r.id = some r := Table.mem_rows.mp hr
      rw [hrid, hget] at this
      obtain rfl := Option.some.inj this
      exact Bool.not_eq_true _ ▸ howns
  · next hget =>
    refine sound_refl fun r hr => hnone r fun hrid => ?_
    have : s.jobs.get? r.id = some r := Table.mem_rows.mp hr
    rw [hrid, hget] at this
    cases this

theorem owns_status {row : JobRow} {attempt : Nat} (h : ownsProcessingAttempt row attempt = true) :
    row.status = .processing := by
  simp only [ownsProcessingAttempt, Bool.and_eq_true, decide_eq_true_eq] at h
  exact h.1

/-- An owned job is retired or goes on as `f` says. -/
theorem fenced_sound {o : TurnOp} {c : Scene} {now : Time} {row : JobRow} {generation : Int}
    {f : Store} (hget : s.jobs.get? row.id = some row) (hopen : row.isOpen)
    (hnone : ∀ r, o.givesBack r = false) (h : Sound o s f) :
    Sound o s (fenced s c now row generation f) := by
  unfold fenced
  split
  · exact retireTurn_sound hget rfl hopen (.inl rfl) rfl rfl (fun r _ => hnone r) (hnone row)
  · exact h

/-- A write of one row that ends nothing. -/
theorem put_sound {o : TurnOp} {row new : JobRow} (hget : s.jobs.get? row.id = some row)
    (hid : new.id = row.id) (hnone : ∀ r, r.id ≠ row.id → o.givesBack r = false)
    (h : JobChange o s (s.put new) row new) : Sound o s (s.put new) :=
  ⟨changes_put hget hid hnone h, .refl s.db⟩

theorem validateTurnAttempt_sound (c : Scene) (now : Time) (id attempt : Nat) (generation : Int)
    (lease : Time) : Sound (.validateTurnAttempt c now id attempt generation lease) s
      (validateTurnAttempt s c now id attempt generation lease) :=
  owned_sound s (fun _ _ => rfl) fun _ hget _ howns =>
    fenced_sound s hget (.inr (owns_status howns)) (fun _ => rfl)
      (put_sound s hget rfl (fun _ _ => rfl) (.kept rfl rfl rfl rfl rfl))

theorem finishTurn_sound (c : Scene) (now : Time) (id attempt : Nat)
    (generation toolCallsUsed modelRequests : Int) :
    Sound (.finishTurn c now id attempt generation toolCallsUsed modelRequests) s
      (finishTurn s c now id attempt generation toolCallsUsed modelRequests) := by
  refine owned_sound s (fun _ _ => rfl) fun row hget _ howns => ?_
  refine fenced_sound s hget (.inr (owns_status howns)) (fun _ => rfl) ?_
  refine put_sound s hget (keepActualUsage_id _ _) (fun _ _ => rfl) ?_
  exact .ended (.inr (owns_status howns)) (.inl (keepActualUsage_attempts _ _))
    (keepActualUsage_maxAttempts _ _) (keepActualUsage_workId _ _) (.inl (keepActualUsage_status _ _))
    rfl

theorem failTurn_sound (now : Time) (id attempt : Nat) (errorCategory : String) :
    Sound (.failTurn now id attempt errorCategory) s (failTurn s now id attempt errorCategory) := by
  refine owned_sound s (fun _ _ => rfl) fun row hget _ howns => ?_
  split
  · exact retireTurn_sound hget rfl (.inr (owns_status howns)) (.inl rfl) rfl rfl (fun _ _ => rfl) rfl
  · next hlt =>
    refine put_sound s hget rfl (fun _ _ => rfl) ?_
    exact .released (owns_status howns) rfl rfl rfl (fun _ _ => Nat.not_le.1 hlt) rfl

theorem abandonTurn_sound (now : Time) (id attempt : Nat) (errorCategory : String) :
    Sound (.abandonTurn now id attempt errorCategory) s
      (abandonTurn s now id attempt errorCategory) :=
  owned_sound s (fun _ _ => rfl) fun _ hget _ howns =>
    retireTurn_sound hget rfl (.inr (owns_status howns)) (.inl rfl) rfl rfl (fun _ _ => rfl) rfl

theorem parkTurn_sound (now : Time) (id attempt : Nat) (errorCategory : String) :
    Sound (.parkTurn now id attempt errorCategory) s (parkTurn s now id attempt errorCategory) := by
  have hother : ∀ row : JobRow, row.id = id → ∀ r : JobRow, r.id ≠ row.id →
      (TurnOp.parkTurn now id attempt errorCategory).givesBack r = false := by
    intro row hid r hr
    have hne : ¬ r.id = id := hid ▸ hr
    simp [TurnOp.givesBack, hne]
  refine owned_sound s (fun r h => ?_) fun row hget hid howns => ?_
  · by_cases hr : r.id = id
    · simp [TurnOp.givesBack, h hr]
    · simp [TurnOp.givesBack, hr]
  have hback : (TurnOp.parkTurn now id attempt errorCategory).givesBack row = row.workId.isSome := by
    simp [TurnOp.givesBack, hid, howns]
  split
  · next hend =>
    simp only [Bool.and_eq_true, decide_eq_true_eq] at hend
    refine retireTurn_sound hget rfl (.inr (owns_status howns)) (.inl rfl) rfl rfl (hother row hid) ?_
    rw [hback]
    simpa using hend.1
  · next hgo =>
    refine put_sound s hget rfl (hother row hid) ?_
    refine .released (owns_status howns) rfl rfl ?_ (fun _ hno => ?_) rfl
    · rw [hback]
      cases row.workId <;> rfl
    · rw [hback] at hno
      simp only [Bool.and_eq_true, decide_eq_true_eq, not_and, Nat.not_le] at hgo
      exact hgo (by simpa using hno)

theorem deferTurn_sound (now : Time) (id attempt : Nat) (errorCategory : String)
    (delaySeconds : Time) (preserveBudget : Bool) :
    Sound (.deferTurn now id attempt errorCategory delaySeconds preserveBudget) s
      (deferTurn s now id attempt errorCategory delaySeconds preserveBudget) := by
  refine owned_sound s (fun r h => ?_) fun row hget hid howns => ?_
  · by_cases hr : r.id = id
    · simp [TurnOp.givesBack, h hr]
    · simp [TurnOp.givesBack, hr]
  have hback : (TurnOp.deferTurn now id attempt errorCategory delaySeconds preserveBudget).givesBack
      row = preserveBudget := by
    simp [TurnOp.givesBack, hid, howns]
  refine put_sound s hget rfl (fun r hr => ?_) ?_
  · have hne : ¬ r.id = id := hid ▸ hr
    simp [TurnOp.givesBack, hne]
  · refine .released (owns_status howns) rfl rfl ?_ (fun hover hno => ?_) rfl
    · rw [hback]
      cases preserveBudget <;> rfl
    · rw [hback] at hno
      subst hno
      simpa [TurnOp.overruns, hid, howns] using hover

theorem loadBackgroundContext_sound (seen : Store) (before c : Scene) (now : Time)
    (job : BackgroundTurnJobRecord) (workId : Option String) :
    Sound (.loadBackgroundContext seen before c now job workId) s
      (loadBackgroundContext seen s before c now job workId) := by
  unfold loadBackgroundContext
  split
  · split
    · exact owned_sound s (fun _ _ => rfl) fun row hget _ howns =>
        fenced_sound s hget (.inr (owns_status howns)) (fun _ => rfl) (sound_refl fun _ _ => rfl)
    · exact sound_refl fun _ _ => rfl
  · exact sound_refl fun _ _ => rfl

/-- The Work is admitted and bound in one transaction, or nothing changes. -/
theorem admitBackgroundTurnWork_sound (c : Scene) (now : Time) (lease : WorkLease)
    (a : TurnAdmission) (fresh : String) :
    Sound (.admitBackgroundTurnWork c now lease a fresh) s
      (admitBackgroundTurnWork s c now lease a fresh) := by
  refine owned_sound s (fun _ _ => rfl) fun row hget _ howns => ?_
  split
  · exact sound_refl fun _ _ => rfl
  refine fenced_sound s hget (.inr (owns_status howns)) (fun _ => rfl) ?_
  split
  · exact sound_refl fun _ _ => rfl
  · next db admitted hacc =>
    obtain ⟨hlasting, hadmitted⟩ := acceptInSession_lasting rfl hacc
    split
    · next hlink =>
      simp only [Bool.and_eq_true] at hlink
      refine ⟨changes_put hget rfl (fun _ _ => rfl) ?_, hlasting⟩
      refine .bound (owns_status howns) (owns_status howns) rfl rfl ?_ ⟨_, _, rfl, hadmitted⟩ rfl
      cases hw : row.workId with
      | none => exact .inl rfl
      | some w =>
        rw [hw] at hlink
        obtain rfl := of_decide_eq_true hlink.1
        exact .inr rfl
    · exact sound_refl fun _ _ => rfl

/-- An update of the rows that a condition selects. -/
theorem changes_update {o : TurnOp} {s' : Store} {p : JobRow → Bool} {f : JobRow → JobRow}
    (hjobs : ∀ id, s'.jobs.get? id = (s.jobs.get? id).map fun row => if p row then f row else row)
    (hnone : ∀ row, o.givesBack row = false)
    (h : ∀ row, p row = true → JobChange o s s' row (f row)) : Changes o s s' := by
  refine ⟨fun id row hget => ?_, fun id row hnone hsome => by
    rw [hjobs, hnone] at hsome
    cases hsome⟩
  refine ⟨if p row then f row else row, by rw [hjobs, hget]; rfl, ?_⟩
  cases hp : p row with
  | true => exact h row hp
  | false => exact .kept rfl rfl rfl rfl (hnone row)

theorem revokeTarget_sound (now : Time) (g : RevokedGrant) :
    Sound (.revokeTarget now g) s (revokeTarget s now g) :=
  ⟨changes_update s (Table.get?_update _ _ _ (by intro; rfl)) (fun _ => rfl) fun _ hm =>
    .revoked ⟨now, g, rfl, hm⟩ rfl rfl rfl rfl, .of_eq rfl fun _ h => h⟩

theorem linkedWorkUsage_eq_some {db : Db} {row : JobRow} {w : WorkRow} :
    linkedWorkUsage db row = some w ↔
      ∃ id, row.workId = some id ∧ db.works.get? id = some w := by
  simp [linkedWorkUsage, Option.bind_eq_some_iff]

theorem endedAs_status (state : WorkState) :
    (endedAs state).1 = .completed ∨ (endedAs state).1 = .failed ∨ (endedAs state).1 = .cancelled := by
  cases state <;> simp [endedAs]

/-- A job that is closed with its Work. -/
theorem closedWithTerminalWork_ended {o : TurnOp} {s' : Store} {now : Time} {row : JobRow}
    (hopen : row.isOpen) (hterminal : (linkedWorkUsage s.db row).all (·.state.terminal) = true)
    (hdb : s'.db = s.db) (hnone : o.givesBack row = false) :
    JobChange o s s' row (closedWithTerminalWork s.db now row) := by
  have hwork : (closedWithTerminalWork s.db now row).workId = row.workId :=
    keepActualUsage_workId _ _
  have hended : WorkEnded s'.db row.workId := by
    intro id w hid hw
    rw [hdb] at hw
    rw [linkedWorkUsage_eq_some.mpr ⟨id, hid, hw⟩] at hterminal
    exact hterminal
  have hstatus : (closedWithTerminalWork s.db now row).status = .completed ∨
      (closedWithTerminalWork s.db now row).status = .failed ∨
      (closedWithTerminalWork s.db now row).status = .cancelled := by
    unfold closedWithTerminalWork
    cases linkedWorkUsage s.db row with
    | none => exact .inr (.inl rfl)
    | some w => exact endedAs_status w.state
  exact .ended hopen (.inl (keepActualUsage_attempts _ _)) (keepActualUsage_maxAttempts _ _) hwork
    (hstatus.imp_right fun h => ⟨h, by rw [hwork]; exact hended⟩) hnone

theorem reconcileTerminalTurns_sound (seen : Store) (now : Time) (after : Option Nat) :
    Sound (.reconcileTerminalTurns seen now after) s (reconcileTerminalTurns seen s now after) := by
  refine ⟨changes_update s (Table.get?_update _ _ _ (by intro; rfl)) (fun _ => rfl)
    fun row hp => ?_, .refl s.db⟩
  simp only [reconcilable, Bool.and_eq_true, Bool.or_eq_true, decide_eq_true_eq] at hp
  exact closedWithTerminalWork_ended s hp.2.1.1 hp.2.2 rfl rfl

theorem publishTurn_sound (now : Time) (r : TurnRequest) :
    Sound (.publish now r) s (publishTurn s now r) := by
  refine ⟨⟨fun _ row hget => ⟨row, Table.get?_insert_of_some hget, .kept rfl rfl rfl rfl rfl⟩,
    fun id row hnone hsome => ?_⟩, .refl s.db⟩
  rw [publishTurn, Table.get?_insert, hnone, Option.none_or] at hsome
  obtain ⟨-, hrow⟩ := Option.ite_none_right_eq_some.mp hsome
  obtain rfl := Option.some.inj hrow
  refine ⟨rfl, rfl, rfl, ?_⟩
  dsimp only
  split <;> simp

/-! Claims. -/

theorem claimSelect_open {db : Db} {now : Time} {row : JobRow}
    (h : claimSelect db now row = true) : row.isOpen := by
  simp only [claimSelect, leaseExpired, Bool.or_eq_true, Bool.and_eq_true, decide_eq_true_eq] at h
  exact h.imp (·.1.1) (·.1.1)

/-- A Work that has not ended and lets its job run is queued or running. -/
theorem workRunnable_of_ready {db : Db} {now : Time} {row : JobRow}
    (hopen : (row.workId.isSome && (linkedWorkUsage db row).all (·.state.terminal)) = false)
    (hready : linkedWorkReady db now row = true) : WorkRunnable db row.workId := by
  intro id hid
  simp only [hid, Option.isSome_some, Bool.true_and, linkedWorkUsage, Option.bind_some] at hopen
  cases hw : db.works.get? id with
  | none =>
    rw [hw] at hopen
    cases hopen
  | some w =>
    have hstate : w.state.terminal = false := by simpa [hw] using hopen
    simp only [linkedWorkReady, hid, hw, hstate, Bool.false_or, Bool.or_eq_true, Bool.and_eq_true,
      decide_eq_true_eq] at hready
    exact ⟨w, rfl, hready.imp (·.1.1) (·.1)⟩

/-- A claim that hands an attempt out. -/
structure HandsOut (s s' : Store) (job : BackgroundTurnJobRecord) (row row' : JobRow) :
    Prop where
  before : s.jobs.get? job.id = some row
  after : s'.jobs.get? job.id = some row'
  attempts : row'.attempts = row.attempts + 1
  attempt : job.attempts = row'.attempts
  status : row'.status = .processing
  workId : row'.workId = row.workId
  runnable : WorkRunnable s'.db row'.workId

section Claim

variable (seen : Store) (c : Scene) (then_ now lease : Time)

theorem claim_within {row : JobRow}
    (hcandidate : (claimCandidate seen then_).bind s.jobs.get? = some row)
    (hselect : claimSelect s.db now row = true)
    (hopen : (row.workId.isSome && (linkedWorkUsage s.db row).all (·.state.terminal)) = false) :
    (TurnOp.claimTurn seen c then_ now lease).overruns s row = false → row.status = .processing →
      row.attempts < row.maxAttempts := by
  intro hover hstatus
  have hclaimed : claimed seen s then_ now = some row := by
    rw [claimed, hcandidate, Option.filter_some, hselect]
    rfl
  simpa [TurnOp.overruns, hclaimed, hstatus, hopen] using hover

theorem claimTurn_sound : Sound (.claimTurn seen c then_ now lease) s
      (claimTurn seen s c then_ now lease).1 ∧
    ∀ job, (claimTurn seen s c then_ now lease).2 = some job → ∃ row row',
      HandsOut s (claimTurn seen s c then_ now lease).1 job row row' := by
  have hnone : ∀ r, (TurnOp.claimTurn seen c then_ now lease).givesBack r = false := fun _ => rfl
  unfold claimTurn
  cases hcandidate : (claimCandidate seen then_).bind s.jobs.get? with
  | none => exact ⟨sound_refl fun _ _ => rfl, by simp⟩
  | some row =>
    have hget : s.jobs.get? row.id = some row := by
      obtain ⟨id, -, hid⟩ := Option.bind_eq_some_iff.mp hcandidate
      rw [Table.get?_key hid]
      exact hid
    dsimp only
    split
    · exact ⟨sound_refl fun _ _ => rfl, by simp⟩
    next hselect =>
    have hselect : claimSelect s.db now row = true := by simpa using hselect
    have hopen := claimSelect_open hselect
    split
    · next hclosed =>
      simp only [Bool.and_eq_true] at hclosed
      refine ⟨put_sound s hget rfl (fun _ _ => rfl) ?_, by simp⟩
      exact closedWithTerminalWork_ended s hopen hclosed.2 rfl rfl
    next hlive =>
    have hlive := Bool.not_eq_true _ ▸ hlive
    have hwithin := claim_within s seen c then_ now lease hcandidate hselect hlive
    have hretire : ∀ status category, Sound (.claimTurn seen c then_ now lease) s
        (retireTurn s now { row with
          status := .processing
          attempts := row.attempts + 1
          leaseUntil := some (now + lease)
          updatedAt := now } status category none) := fun _ _ =>
      retireTurn_sound hget rfl hopen (.inr ⟨rfl, hwithin⟩) rfl rfl (fun _ _ => rfl) rfl
    split
    · next hparked =>
      -- a pending job is selected only where its Work is ready
      have hexpired : row.status = .processing := by
        simp only [claimSelect, leaseExpired, Bool.or_eq_true, Bool.and_eq_true,
          decide_eq_true_eq] at hselect
        obtain hpending | hlease := hselect
        · simp [hpending.2] at hparked
        · exact hlease.1.1
      refine ⟨put_sound s hget rfl (fun _ _ => rfl) ?_, by simp⟩
      exact .released hexpired rfl rfl rfl (fun hover _ => hwithin hover hexpired) rfl
    next hready =>
    have hready : linkedWorkReady s.db now row = true := by simpa using hready
    have hrunnable := workRunnable_of_ready hlive hready
    split
    · exact ⟨hretire .failed _, by simp⟩
    split
    · exact ⟨hretire .cancelled _, by simp⟩
    split
    · exact ⟨hretire .cancelled _, by simp⟩
    split
    · exact ⟨hretire .cancelled _, by simp⟩
    · refine ⟨put_sound s hget rfl (fun _ _ => rfl) ?_, ?_⟩
      · exact .taken hopen hwithin hrunnable rfl rfl rfl rfl rfl
      · rintro job ⟨rfl⟩
        have hafter : ∀ new : JobRow, new.id = row.id → (s.put new).jobs.get? row.id = some new := by
          rintro new hid
          rw [get?_put, hget, Option.map_some, if_pos hid.symm, ← hid]
        exact ⟨row, _, hget, hafter _ rfl, rfl, rfl, rfl, rfl, hrunnable⟩

end Claim

end Operations

theorem TurnOp.sound (o : TurnOp) (s : Store) : Sound o s (o.exec s).1 := by
  cases o with
  | publish now r => exact publishTurn_sound s now r
  | claimTurn seen c then_ now lease => exact (claimTurn_sound s seen c then_ now lease).1
  | reconcileTerminalTurns seen now after => exact reconcileTerminalTurns_sound s seen now after
  | validateTurnAttempt c now id attempt generation lease =>
    exact validateTurnAttempt_sound s c now id attempt generation lease
  | finishTurn c now id attempt generation toolCallsUsed modelRequests =>
    exact finishTurn_sound s c now id attempt generation toolCallsUsed modelRequests
  | failTurn now id attempt errorCategory => exact failTurn_sound s now id attempt errorCategory
  | abandonTurn now id attempt errorCategory => exact abandonTurn_sound s now id attempt errorCategory
  | parkTurn now id attempt errorCategory => exact parkTurn_sound s now id attempt errorCategory
  | deferTurn now id attempt errorCategory delaySeconds preserveBudget =>
    exact deferTurn_sound s now id attempt errorCategory delaySeconds preserveBudget
  | loadBackgroundContext seen before c now job workId =>
    exact loadBackgroundContext_sound s seen before c now job workId
  | admitBackgroundTurnWork c now lease a fresh =>
    exact admitBackgroundTurnWork_sound s c now lease a fresh
  | revokeTarget now g => exact revokeTarget_sound s now g

/-- Only a claim hands an attempt out. -/
theorem TurnOp.handsOut {o : TurnOp} {s : Store} {job : BackgroundTurnJobRecord}
    (h : (o.exec s).2 = some job) : ∃ row row', HandsOut s (o.exec s).1 job row row' := by
  cases o with
  | claimTurn seen c then_ now lease => exact (claimTurn_sound s seen c then_ now lease).2 job h
  | _ => cases h

end Yuki.BackgroundTurns

import Yuki.Runtime.OneShot

/-! Delivery of accepted waits. A registration compares persons, a delivery compares
ids: where both ids are the same, a wait of a live Work is always delivered. -/

namespace Yuki

open Db OneShot WorkRepository WorkWaitRepository

/-- The principal of a source, as a delivery compares it with the stored ids. -/
def recordedIn (source : Json) (b : Binding) : Bool :=
  sourceKind source == .text b.principalKind &&
    (if sourceKind source = .text "self" then .text "self" else sourcePersonId source) ==
      .text b.principalId

theorem original_recorded {db : Db} {b : Binding} {w : WorkRow}
    (h : db.works.get? b.workId = some w) :
    (db.original b).recorded b = recordedIn w.sourceJson b := by
  simp [original, Original.recorded, Original.principal, recordedIn, h]

/-- The stored principal of every active wait is the recorded one of its unfinished Work. -/
def Db.Recorded (db : Db) : Prop :=
  ∀ v ∈ db.waits.rows, v.status = .active → ∀ w, db.works.get? v.workId = some w →
    w.state.terminal = false → recordedIn w.sourceJson v.binding = true

/-- A change without new active waits, after which an unfinished Work with an active wait was
unfinished before, with the same source. -/
structure Steady (db db' : Db) : Prop where
  waits : ∀ v' ∈ db'.waits.rows, v'.status = .active →
    ∃ v ∈ db.waits.rows, v.status = .active ∧ v.binding = v'.binding
  works : ∀ v' ∈ db'.waits.rows, v'.status = .active → ∀ w', db'.works.get? v'.workId = some w' →
    w'.state.terminal = false → ∃ w, db.works.get? v'.workId = some w ∧
      w.state.terminal = false ∧ w.sourceJson = w'.sourceJson

namespace Steady

variable {db db' db'' : Db}

theorem recorded (h : Steady db db') (hr : db.Recorded) : db'.Recorded := by
  intro v' hv' hs' w' hw' hlive'
  obtain ⟨v, hv, hs, hb⟩ := h.waits v' hv' hs'
  obtain ⟨w, hw, hlive, hsource⟩ := h.works v' hv' hs' w' hw' hlive'
  have hid : v.workId = v'.workId := congrArg Binding.workId hb
  have := hr v hv hs w (hid ▸ hw) hlive
  rwa [hb, hsource] at this

theorem trans (h : Steady db db') (h' : Steady db' db'') : Steady db db'' where
  waits v'' hv'' hs'' := by
    obtain ⟨v', hv', hs', hb'⟩ := h'.waits v'' hv'' hs''
    obtain ⟨v, hv, hs, hb⟩ := h.waits v' hv' hs'
    exact ⟨v, hv, hs, hb.trans hb'⟩
  works v'' hv'' hs'' w'' hw'' hlive'' := by
    obtain ⟨v', hv', hs', hb'⟩ := h'.waits v'' hv'' hs''
    have hid : v'.workId = v''.workId := congrArg Binding.workId hb'
    obtain ⟨w', hw', hlive', hsource'⟩ := h'.works v'' hv'' hs'' w'' hw'' hlive''
    obtain ⟨w, hw, hlive, hsource⟩ := h.works v' hv' hs' w' (hid ▸ hw') hlive'
    exact ⟨w, hid ▸ hw, hlive, hsource.trans hsource'⟩

/-- Updates that neither arm a wait nor revive a Work nor change a source. -/
theorem of_map {f : WaitRow → WaitRow} {g : WorkRow → WorkRow}
    (hwaits : db'.waits.rows = db.waits.rows.map f)
    (hf : ∀ v, (f v).status = .active → v.status = .active ∧ (f v).binding = v.binding)
    (hworks : ∀ k, db'.works.get? k = (db.works.get? k).map g)
    (hg : ∀ k w, db.works.get? k = some w → (g w).state.terminal = false →
      w.state.terminal = false ∧ (g w).sourceJson = w.sourceJson) : Steady db db' where
  waits v' hv' hs' := by
    rw [hwaits] at hv'
    obtain ⟨v, hv, rfl⟩ := List.mem_map.mp hv'
    exact ⟨v, hv, (hf v hs').1, (hf v hs').2.symm⟩
  works v' _ _ w' hw' hlive' := by
    rw [hworks, Option.map_eq_some_iff] at hw'
    obtain ⟨w, hw, rfl⟩ := hw'
    obtain ⟨hlive, hsource⟩ := hg _ w hw hlive'
    exact ⟨w, hw, hlive, hsource.symm⟩

theorem of_works {g : WorkRow → WorkRow} (hwaits : db'.waits = db.waits)
    (hworks : ∀ k, db'.works.get? k = (db.works.get? k).map g)
    (hg : ∀ k w, db.works.get? k = some w → (g w).state.terminal = false →
      w.state.terminal = false ∧ (g w).sourceJson = w.sourceJson) : Steady db db' :=
  .of_map (f := id) (by simp [hwaits]) (fun _ h => ⟨h, rfl⟩) hworks hg

theorem of_waits {p : WaitRow → Bool} {f : WaitRow → WaitRow} (hworks : db'.works = db.works)
    (hwaits : db'.waits.rows = db.waits.rows.map fun v => if p v = true then f v else v)
    (hf : ∀ v, (f v).status = .active → v.status = .active ∧ (f v).binding = v.binding) :
    Steady db db' := by
  refine .of_map (g := id) hwaits (fun v h => ?_) (fun k => by simp [hworks])
    fun _ _ _ h => ⟨h, rfl⟩
  by_cases hp : p v = true
  · rw [if_pos hp] at h ⊢
    exact hf v h
  · rw [if_neg hp] at h ⊢
    exact ⟨h, rfl⟩

theorem of_eq (hwaits : db'.waits = db.waits) (hworks : db'.works = db.works) : Steady db db' :=
  .of_works (g := id) hwaits (fun k => by simp [hworks]) fun _ _ _ h => ⟨h, rfl⟩

theorem refl (db : Db) : Steady db db :=
  .of_eq rfl rfl

/-- Works that are queued again where they waited. -/
theorem woken {p : WorkRow → Bool} {f : WorkRow → WorkRow} (hwaits : db'.waits = db.waits)
    (hworks : ∀ k, db'.works.get? k = (db.works.get? k).map fun w => if p w = true then f w else w)
    (hp : ∀ w, p w = true → w.state.terminal = false)
    (hf : ∀ w, (f w).sourceJson = w.sourceJson) : Steady db db' := by
  refine .of_works hwaits hworks fun k w _ hlive => ?_
  by_cases hw : p w = true
  · rw [if_pos hw]
    exact ⟨hp w hw, hf w⟩
  · rw [if_neg hw] at hlive ⊢
    exact ⟨hlive, rfl⟩

theorem foldl {α : Type} {f : Db → α → Db} (h : ∀ d a, Steady d (f d a)) (xs : List α) (d : Db) :
    Steady d (xs.foldl f d) := by
  induction xs generalizing d with
  | nil => exact .refl d
  | cons x xs ih => exact (h d x).trans (ih (f d x))

end Steady

/-- The wait was invalidated before, if it is now. -/
def Spared (id : String) (db db' : Db) : Prop :=
  ∀ w', db'.waits.get? id = some w' → w'.status = .invalidated →
    ∃ w, db.waits.get? id = some w ∧ w.status = .invalidated

namespace Spared

variable {id : String} {db db' db'' : Db}

theorem of_eq (h : db'.waits.get? id = db.waits.get? id) : Spared id db db' :=
  fun w' hw' hs => ⟨w', h ▸ hw', hs⟩

theorem trans (h : Spared id db db') (h' : Spared id db' db'') : Spared id db db'' := by
  intro w'' hw'' hs''
  obtain ⟨w', hw', hs'⟩ := h' w'' hw'' hs''
  exact h w' hw' hs'

theorem of_map {f : WaitRow → WaitRow} (hw : db'.waits.get? id = (db.waits.get? id).map f)
    (hf : ∀ v, (f v).status = .invalidated → v.status = .invalidated) : Spared id db db' := by
  intro w' hw' hs
  rw [hw, Option.map_eq_some_iff] at hw'
  obtain ⟨v, hv, rfl⟩ := hw'
  exact ⟨v, hv, hf v hs⟩

end Spared

/-- A steady change that invalidates no wait. -/
structure Calm (db db' : Db) : Prop extends Steady db db' where
  spared : ∀ id, Spared id db db'

namespace Calm

variable {db db' db'' : Db}

theorem trans (h : Calm db db') (h' : Calm db' db'') : Calm db db'' where
  toSteady := h.toSteady.trans h'.toSteady
  spared id := (h.spared id).trans (h'.spared id)

theorem of_steady (hwaits : db'.waits = db.waits) (h : Steady db db') : Calm db db' :=
  ⟨h, fun _ => .of_eq (by rw [hwaits])⟩

theorem refl (db : Db) : Calm db db :=
  .of_steady rfl (.refl db)

/-- Waits that are cancelled. -/
theorem cancelled {p : WaitRow → Bool} {f : WaitRow → WaitRow} (h : Steady db db')
    (hwaits : ∀ k, db'.waits.get? k = (db.waits.get? k).map fun v => if p v = true then f v else v)
    (hf : ∀ v, (f v).status = .cancelled) : Calm db db' := by
  refine ⟨h, fun id => .of_map (hwaits id) fun v hs => ?_⟩
  by_cases hp : p v = true
  · rw [if_pos hp, hf] at hs
    cases hs
  · rwa [if_neg hp] at hs

end Calm

section

variable (db : Db) (now : Time)

theorem cancelActiveWaits_calm (workId : String) : Calm db (db.cancelActiveWaits now workId) :=
  .cancelled (.of_waits rfl (Table.rows_update _ _ _ (by intro; rfl)) fun _ h => by simp at h)
    (Table.get?_update _ _ _ (by intro; rfl)) fun _ => rfl

theorem stopOwnedExecution_calm (identity : String) (reason : Option String) :
    Calm db (stopOwnedExecution db now identity reason) := by
  refine .cancelled (.of_map (Table.rows_update _ _ _ (by intro; rfl)) (fun v h => ?_)
    (Table.get?_update _ _ _ (by intro; rfl)) fun k w _ h => ?_)
    (Table.get?_update _ _ _ (by intro; rfl)) fun _ => rfl
  · split at h
    · simp at h
    · rename_i hp
      rw [if_neg hp]
      exact ⟨h, rfl⟩
  · split at h
    · simp [WorkState.terminal] at h
    · rename_i hp
      rw [if_neg hp]
      exact ⟨h, rfl⟩

theorem wakeWaiting_calm (p : WorkRow → Bool) : Calm db (db.wakeWaiting now p) := by
  refine .of_steady rfl (.woken rfl (Table.get?_update _ _ _ (by intro; rfl)) (fun w h => ?_)
    fun _ => rfl)
  simp only [Bool.and_eq_true, beq_iff_eq] at h
  simp [h.1.2, WorkState.terminal]

theorem insertInput_calm (r : InputRow) : Calm db (db.insertInput r).1 :=
  .of_steady (insertInput_waits db r) (.of_eq (insertInput_waits db r) (insertInput_works db r))

theorem reportResult_calm (row : WorkRow) : Calm db (reportResult db now row) := by
  unfold reportResult
  split
  · exact .refl db
  split
  · exact (insertInput_calm db _).trans (wakeWaiting_calm _ now _)
  · exact .refl db

theorem reportStop_calm (identity : String) (revision : Int) (state : WorkState)
    (reason : String) (parentId : Option String) :
    Calm db (reportStop db now identity revision state reason parentId) := by
  unfold reportStop
  split
  · exact .refl db
  · exact (insertInput_calm db _).trans (wakeWaiting_calm _ now _)

/-- A settlement replaces a row that was unfinished. -/
theorem settle_calm {lease : WorkLease} {identity : String} {s : Settling}
    {reason goal : Option String} {detail : Option RecoveryDetail} {before : WorkRow}
    (hget : db.works.get? identity = some before) (hlive : before.state.terminal = false) :
    Calm db (settle db now lease identity s reason goal detail) := by
  have hwritten : Calm db (writeSettled db now identity s goal) := by
    refine .of_steady rfl (.of_works rfl (Table.get?_update _ _ _ (settledRow_id db now s goal))
      fun k w hw h => ?_)
    by_cases hp : w.id = identity
    · obtain rfl : k = identity := (Table.get?_key hw).symm.trans hp
      obtain rfl := Option.some.inj (hget.symm.trans hw)
      rw [if_pos (by simp [hp])]
      exact ⟨hlive, rfl⟩
    · rw [if_neg (by simpa using hp)] at h ⊢
      exact ⟨h, rfl⟩
  have hstopped := hwritten.trans (stopOwnedExecution_calm _ now identity reason)
  have hrecorded (d : Db) : Calm d (recordExit d now lease identity s.exitReason detail) :=
    .of_steady (by simp) (.of_eq (by simp) (by simp))
  unfold settle
  dsimp only
  split <;> split
  · exact (hstopped.trans (hrecorded _)).trans (cancelActiveWaits_calm _ now identity)
  · exact (hwritten.trans (hrecorded _)).trans (cancelActiveWaits_calm _ now identity)
  · exact hstopped.trans (hrecorded _)
  · exact hwritten.trans (hrecorded _)

theorem stopWork_calm {row : WorkRow} {state : WorkState} (hstate : state.terminal = true)
    (reason : String) : Calm db (stopWork db now row state reason) := by
  unfold stopWork
  dsimp only
  refine .trans ?_ (reportStop_calm _ now _ _ _ _ _)
  refine (stopOwnedExecution_calm db now row.id (some reason)).trans
    (.of_steady rfl (.of_works rfl (Table.get?_update _ _ _ (by intro; rfl)) fun k w _ h => ?_))
  split at h
  · simp [hstate] at h
  · rename_i hp
    rw [if_neg hp]
    exact ⟨h, rfl⟩

/-- A resumed Work may have been finished, but has no active wait then. -/
theorem queueAgain_calm (row : WorkRow) : Calm db (queueAgain db now row) where
  spared := (cancelActiveWaits_calm db now row.id).spared
  waits := (cancelActiveWaits_calm db now row.id).waits
  works v' hv' hs' w' hw' hlive' := by
    have hne : v'.workId ≠ row.id := by
      obtain ⟨v, -, rfl⟩ := List.mem_map.mp hv'
      by_cases hp : (v.workId == row.id && v.status == .active) = true
      · rw [if_pos hp] at hs'
        simp at hs'
      · rw [if_neg hp] at hs' ⊢
        simpa [hs'] using hp
    simp only [queueAgain, cancelActiveWaits, Table.get?_update, Option.map_eq_some_iff] at hw'
    obtain ⟨w, hw, rfl⟩ := hw'
    have hid := Table.get?_key hw
    rw [if_neg (by simp [hid, hne])] at hlive' ⊢
    exact ⟨w, hw, hlive', rfl⟩

end

section

variable {db db' : Db} {now : Time}

theorem commitState_calm {lease : WorkLease} {identity : String} {state : WorkState}
    {revision : Option Int} {reason goal exitReason : Option String}
    {detail : Option RecoveryDetail} {row : WorkRow}
    (h : commitState db now lease identity state revision reason goal exitReason detail =
      .ok (db', row)) : Calm db db' := by
  obtain ⟨before, hget, hc, rfl, rfl⟩ := commitState_cases h
  have hlive : before.state.terminal = false := by
    simp only [committable, Bool.and_eq_true, Bool.not_eq_true'] at hc
    exact hc.1.2
  exact (settle_calm db now hget hlive).trans (reportResult_calm _ now _)

theorem manageWork_calm {identity : String} {revision : Int} {action : ManagementAction}
    {reason : Option String} {r : Int × WorkState}
    (h : manageWork db now identity revision action reason = .ok (db', r)) : Calm db db' := by
  simp only [manageWork, bind_eq_ok, expect_eq_ok, require_eq_ok] at h
  obtain ⟨-, -, row, -, -, -, -, -, h⟩ := h
  cases action with
  | cancel =>
    obtain ⟨rfl, -⟩ := Prod.mk.inj (pure_eq_ok.mp h)
    exact stopWork_calm db now rfl _
  | fail =>
    obtain ⟨rfl, -⟩ := Prod.mk.inj (pure_eq_ok.mp h)
    exact stopWork_calm db now rfl _
  | resume =>
    simp only [bind_eq_ok, pure_eq_ok] at h
    obtain ⟨-, -, h⟩ := h
    obtain ⟨rfl, -⟩ := Prod.mk.inj h
    exact queueAgain_calm db now row

theorem cancel_calm {lease : WorkLease} {workId : String} {b : Bool}
    (h : cancel db now lease workId = .ok (db', b)) : Calm db db' := by
  simp only [cancel, bind_eq_ok, pure_eq_ok] at h
  obtain ⟨-, -, h⟩ := h
  obtain ⟨rfl, -⟩ := Prod.mk.inj h
  exact .cancelled (.of_waits rfl (Table.rows_update _ _ _ (by intro; rfl)) fun _ h => by simp at h)
    (Table.get?_update _ _ _ (by intro; rfl)) fun _ => rfl

theorem updateActive_steady (db : Db) {id : String} {f : WaitRow → WaitRow}
    (hf : ∀ w, (f w).id = w.id)
    (h : ∀ v, (f v).status = .active → v.status = .active ∧ (f v).binding = v.binding) :
    Steady db (db.updateActive id f hf) :=
  .of_waits rfl (Table.rows_update _ _ _ hf) h

theorem deliver_steady (db : Db) (b : Binding) (o : Option Original) (cs : List Condition)
    (reason : SignalReason) (now : Time) (event : Option Int) :
    Steady db (deliver db b o cs reason now event).1 := by
  unfold deliver
  dsimp only
  split
  · exact updateActive_steady db _ fun _ h => by simp at h
  split
  · exact .refl db
  · have hended : Steady db (endWait db now b.id cs reason) :=
      updateActive_steady db _ fun _ h => by cases reason <;> simp [endStatus] at h
    refine (hended.trans (insertInput_calm _ _).toSteady).trans
      (.woken rfl (Table.get?_update _ _ _ (by intro; rfl)) (fun w h => ?_) fun _ => rfl)
    simp only [Bool.and_eq_true, Bool.or_eq_true, beq_iff_eq] at h
    rcases h.2 with h | h <;> simp [h, WorkState.terminal]

theorem signalExternalAction_steady (db : Db) (now : Time) (workId runId : String)
    (prepared : PreparedWaitAction) :
    Steady db (signalExternalAction db now workId runId prepared) := by
  unfold signalExternalAction
  split
  · exact .refl db
  split
  · exact .refl db
  split
  · split
    · exact deliver_steady ..
    · exact .refl db
  · refine .woken rfl (Table.get?_update _ _ _ (by intro; rfl)) (fun w h => ?_) fun _ => rfl
    simp only [Bool.and_eq_true, beq_iff_eq] at h
    simp [h.2, WorkState.terminal]

theorem callbacks_steady (db : Db) (now : Time) (cs : List Callback) :
    Steady db (callbacks db now cs) := by
  unfold callbacks
  split
  · refine .foldl (fun d c => ?_) cs db
    unfold callback
    dsimp only
    split
    · exact (insertInput_calm d _).toSteady
    · exact (insertInput_calm d _).toSteady.trans (signalExternalAction_steady ..)
  · exact .refl db

theorem applyToWait_steady (kind : EventKind) (e : EventRow) (now : Time) (s : EventEffect)
    (row : DueRow) : Steady s.db (applyToWait kind e now s row).db := by
  unfold applyToWait
  split
  · exact .refl s.db
  dsimp only
  split
  · exact deliver_steady ..
  · exact updateActive_steady s.db _ fun _ h => ⟨h, rfl⟩

theorem pollWait_steady (p : PreparedDue) (now : Time) (s : Db × Nat) (row : DueRow) :
    Steady s.1 (pollWait p now s row).1 := by
  unfold pollWait
  split
  · exact .refl s.1
  split
  · exact .refl s.1
  · exact updateActive_steady s.1 _ fun _ h => by simp at h
  · exact updateActive_steady s.1 _ fun _ h => ⟨h, rfl⟩
  · exact deliver_steady ..

theorem fold_steady {σ : Type} (get : σ → Db) {f : σ → DueRow → σ}
    (h : ∀ s row, Steady (get s) (get (f s row))) (rows : List DueRow) (s : σ) :
    Steady (get s) (get (rows.foldl f s)) := by
  induction rows generalizing s with
  | nil => exact .refl _
  | cons row rows ih => exact (h s row).trans (ih _)

theorem deliverPrepared_steady (db : Db) (now : Time) (p : PreparedDue) :
    Steady db (deliverPrepared db now p).1 := by
  unfold deliverPrepared
  split
  · exact .refl db
  split
  · exact .refl db
  · exact fold_steady Prod.fst (pollWait_steady p now) _ (db, 0)

/-- A round of an event: nothing, or the prepared waits of the table, served one by one. -/
theorem matchRound_cases {eventId : Int} {kind : EventKind} {conversationId : String}
    {prepared : List DueRow} {hook : Except Err Unit} {r : Option (Option Nat)}
    (h : matchRound db now eventId kind conversationId prepared hook = .ok (db', r)) :
    db' = db ∨ ∃ (e : EventRow) (c : ConversationRow),
      db' = ((eventWaits (prepareEventWaits db conversationId) e c).foldl
        (applyToWait kind e now) ⟨db, none, false⟩).db := by
  unfold matchRound applyCurrent at h
  split at h
  swap
  · exact .inl (Prod.mk.inj (Except.ok.inj h)).1.symm
  split at h
  swap
  · exact .inl (Prod.mk.inj (Except.ok.inj h)).1.symm
  rename_i hcurrent
  obtain ⟨⟨d, m⟩, ha, h⟩ := map_eq_ok.mp h
  obtain ⟨rfl, -⟩ := Prod.mk.inj h
  unfold applyEvent at ha
  split at ha
  · exact .inl (Prod.mk.inj (Except.ok.inj ha)).1.symm
  split at ha
  · exact .inl (Prod.mk.inj (Except.ok.inj ha)).1.symm
  split at ha
  · exact .inl (Prod.mk.inj (Except.ok.inj ha)).1.symm
  rename_i e _ _ c _ _
  simp only [bind_eq_ok, pure_eq_ok] at ha
  obtain ⟨-, -, ha⟩ := ha
  simp only [eventWaitsCurrent, beq_iff_eq] at hcurrent
  exact .inr ⟨e, c, by rw [hcurrent]; exact (Prod.mk.inj ha).1.symm⟩

theorem matchRound_steady {eventId : Int} {kind : EventKind} {conversationId : String}
    {prepared : List DueRow} {hook : Except Err Unit} {r : Option (Option Nat)}
    (h : matchRound db now eventId kind conversationId prepared hook = .ok (db', r)) :
    Steady db db' := by
  rcases matchRound_cases h with rfl | ⟨e, c, rfl⟩
  · exact .refl db'
  · exact fold_steady EventEffect.db (applyToWait_steady kind e now) _ ⟨db, none, false⟩

end

/-! Registration. -/

/-- The id a person registers with is the recorded one of the Work, letter for letter. -/
def Literal (r : Registration) (db : Db) : Prop :=
  ∀ id, r.principal = .ok ("person", id) → ∀ row, db.works.get? r.workId = some row →
    sourcePersonId row.sourceJson = .text id

theorem principal_cases {r : Registration} {kind id : String} (h : r.principal = .ok (kind, id)) :
    (kind = "self" ∧ id = "self") ∨ kind = "person" := by
  unfold Registration.principal at h
  split at h
  · obtain ⟨rfl, rfl⟩ := Prod.mk.inj (Except.ok.inj h)
    exact .inl ⟨rfl, rfl⟩
  · split at h
    · cases h
    · exact .inr (Prod.mk.inj (Except.ok.inj h)).1.symm
  · cases h

/-- What the admission of a literal principal says about the source of the Work. -/
theorem admitted_recorded {db : Db} {r : Registration} {b : Binding} {row : WorkRow}
    (hp : r.principal = .ok (b.principalKind, b.principalId)) (hb : b.workId = r.workId)
    (hrow : db.works.get? r.workId = some row)
    (hallowed : principalAdmitted db b.principalKind b.principalId (db.original b) = true)
    (hlit : Literal r db) : recordedIn row.sourceJson b = true := by
  have hkind : sourceKind row.sourceJson = .text b.principalKind := by
    simp only [principalAdmitted, original, hb, hrow, Option.map_some, Option.getD_some,
      Bool.and_eq_true, beq_iff_eq] at hallowed
    exact hallowed.1
  simp only [recordedIn, hkind, beq_self_eq_true, Bool.true_and, beq_iff_eq]
  rcases principal_cases hp with ⟨hk, hi⟩ | hk
  · rw [hk, hi, if_pos rfl]
  · rw [hk, if_neg (by simp), hlit b.principalId (hk ▸ hp) row hrow]

/-- What a successful registration of a new wait has checked and done. -/
theorem register_cases {timestamp : String → Option (Option Time)} {db db' : Db} {now : Time}
    {lease : WorkLease} {r : Registration} {fresh id : String}
    (h : register timestamp db now lease r fresh = .ok (db', id)) :
    (db' = db ∧ ∃ v ∈ db.waits.rows, v.id = id ∧ v.status = .active) ∨
    (id = fresh ∧ ∃ w row, w.id = fresh ∧ w.status = .active ∧ w.workId = r.workId ∧
      r.principal = .ok (w.principalKind, w.principalId) ∧
      db.works.get? r.workId = some row ∧ row.state.terminal = false ∧
      row.generation = w.generation ∧ w.conversationId = lease.conversationId ∧
      w.generation = lease.generation ∧
      principalAdmitted db w.principalKind w.principalId (db.original w.binding) = true ∧
      registerNew db now lease r w = .ok db') := by
  simp only [register, bind_eq_ok, expect_eq_ok, require_eq_ok] at h
  obtain ⟨mode, -, normalized, -, deadline, -, principal, hp, -, -, row, hrow, -, hallowed, -, -,
    -, -, h⟩ := h
  obtain ⟨hleased, hlive⟩ := Option.filter_eq_some_iff.mp hrow
  obtain ⟨hget, hlease⟩ := Option.filter_eq_some_iff.mp hleased
  split at h
  · rename_i existing hfound
    simp only [bind_eq_ok, require_eq_ok, pure_eq_ok] at h
    obtain ⟨-, -, -, hs, h⟩ := h
    obtain ⟨rfl, rfl⟩ := Prod.mk.inj h
    exact .inl ⟨rfl, existing, List.mem_of_find?_eq_some hfound, rfl, hs⟩
  · simp only [bind_eq_ok, pure_eq_ok] at h
    obtain ⟨registered, hr, h⟩ := h
    obtain ⟨rfl, rfl⟩ := Prod.mk.inj h
    simp only [Bool.and_eq_true, beq_iff_eq] at hlease
    exact .inr ⟨rfl, _, row, rfl, rfl, rfl, hp, hget, by simpa using hlive, hlease.2, rfl, rfl,
      hallowed, hr⟩

theorem setAcceptedControl_calm {db db' : Db} {now : Time} {lease : WorkLease} {identity : String}
    {control : Option Json} (h : setAcceptedControl db now lease identity control = .ok db') :
    Calm db db' := by
  simp only [setAcceptedControl, bind_eq_ok, pure_eq_ok] at h
  obtain ⟨-, -, rfl⟩ := h
  refine .of_steady rfl (.of_works rfl (Table.get?_update _ _ _ (by intro; rfl)) fun k w _ h => ?_)
  split at h
  · rename_i hp
    rw [if_pos hp]
    exact ⟨h, rfl⟩
  · rename_i hp
    rw [if_neg hp]
    exact ⟨h, rfl⟩

theorem setAcceptedControl_original {db db' : Db} {now : Time} {lease : WorkLease}
    {identity : String} {control : Option Json}
    (h : setAcceptedControl db now lease identity control = .ok db') (b : Binding) :
    db'.original b = db.original b := by
  simp only [setAcceptedControl, bind_eq_ok, pure_eq_ok] at h
  obtain ⟨-, -, rfl⟩ := h
  simp only [original, Table.get?_update]
  cases db.works.get? b.workId with
  | none => rfl
  | some w =>
    simp only [Option.map_some]
    split <;> rfl

/-- The steps of a new registration. -/
theorem registerNew_cases {db db' : Db} {now : Time} {lease : WorkLease} {r : Registration}
    {w : WaitRow} (h : registerNew db now lease r w = .ok db') :
    ∃ inserted decided, insertWait (db.cancelActiveWaits now r.workId) w = .ok inserted ∧
      Calm inserted decided ∧ decided.waits = inserted.waits ∧
      (∀ b, decided.original b = inserted.original b) ∧ db' = (pendingRuns decided r.workId).foldl (fun d run =>
        signalExternalAction d now r.workId run ⟨some w.binding, none, w.conditions⟩) decided := by
  simp only [registerNew, bind_eq_ok] at h
  obtain ⟨inserted, hins, h⟩ := h
  refine ⟨inserted, ?_⟩
  split at h
  · exact ⟨inserted, hins, .refl inserted, rfl, fun _ => rfl, (Except.ok.inj h).symm⟩
  · simp only [bind_eq_ok, pure_eq_ok] at h
    obtain ⟨decided, hdec, rfl⟩ := h
    exact ⟨decided, hins, setAcceptedControl_calm hdec, (setAcceptedControl_kept hdec).2,
      setAcceptedControl_original hdec, rfl⟩

theorem insertWait_waits {db db' : Db} {w : WaitRow} (h : insertWait db w = .ok db') :
    w.id ∉ db.waits.rows.map WaitRow.id ∧ db' = { db with waits := db.waits.insert w } := by
  simp only [insertWait, bind_eq_ok, require_eq_ok, pure_eq_ok] at h
  obtain ⟨-, ⟨hfresh, -⟩, rfl⟩ := h
  exact ⟨hfresh, rfl⟩

theorem insertWait_recorded {db db' : Db} {w : WaitRow} (h : insertWait db w = .ok db')
    (hr : db.Recorded) (hw : ∀ row, db.works.get? w.workId = some row →
      row.state.terminal = false → recordedIn row.sourceJson w.binding = true) :
    db'.Recorded := by
  obtain ⟨-, rfl⟩ := insertWait_waits h
  intro v hv hs row hrow hlive
  rcases Table.mem_insert.mp hv with hv | ⟨rfl, -⟩
  · exact hr v hv hs row hrow hlive
  · exact hw row hrow hlive

theorem register_recorded {timestamp : String → Option (Option Time)} {db db' : Db} {now : Time}
    {lease : WorkLease} {r : Registration} {fresh id : String}
    (h : register timestamp db now lease r fresh = .ok (db', id)) (hlit : Literal r db)
    (hr : db.Recorded) : db'.Recorded := by
  rcases register_cases h with ⟨rfl, -⟩ |
    ⟨-, w, row, -, -, hwork, hp, hrow, -, -, -, -, hallowed, hnew⟩
  · exact hr
  obtain ⟨inserted, decided, hins, hcalm, -, -, rfl⟩ := registerNew_cases hnew
  have hinserted : inserted.Recorded := by
    refine insertWait_recorded hins ((cancelActiveWaits_calm db now r.workId).recorded hr)
      fun row' hrow' _ => ?_
    rw [hwork] at hrow'
    obtain rfl := Option.some.inj (hrow.symm.trans hrow')
    exact admitted_recorded hp hwork hrow hallowed hlit
  have hdecided := hcalm.recorded hinserted
  exact (Steady.foldl (fun d run => signalExternalAction_steady d now r.workId run _)
    (pendingRuns decided r.workId) decided).recorded hdecided

/-! Live waits. -/

/-- A delivery to this Work under this binding is not refused. -/
def Ready (o : Original) (b : Binding) : Prop :=
  o.alive b.generation = true ∧ o.recorded b = true

/-- The Work of the wait is unfinished, in the generation of its conversation. -/
def Db.Live (db : Db) (v : WaitRow) : Prop :=
  (db.original v.binding).alive v.generation = true

theorem Db.Live.work {db : Db} {v : WaitRow} (h : db.Live v) :
    ∃ w, db.works.get? v.workId = some w ∧ w.state.terminal = false := by
  simp only [Live, Original.alive, original, WaitRow.binding, Bool.and_eq_true, beq_iff_eq,
    Bool.not_eq_true'] at h
  obtain ⟨⟨-, hgen⟩, hstate⟩ := h
  obtain ⟨w, hw, -⟩ := Option.map_eq_some_iff.mp hgen
  rw [hw, Option.map_some, Option.any_some] at hstate
  exact ⟨w, hw, hstate⟩

theorem Db.Live.ready {db : Db} {v : WaitRow} (h : db.Live v) (hr : db.Recorded)
    (hv : v ∈ db.waits.rows) (hs : v.status = .active) : Ready (db.original v.binding) v.binding := by
  obtain ⟨w, hw, hlive⟩ := h.work
  exact ⟨h, (original_recorded (b := v.binding) hw).trans (hr v hv hs w hw hlive)⟩

/-- The end of an active wait that is ready, and the Work it wakes. -/
theorem deliver_ends {db : Db} {b : Binding} {o : Option Original} {v : WaitRow}
    (cs : List Condition) (reason : SignalReason) (now : Time) (event : Option Int)
    (hready : Ready (o.getD (db.original b)) b) (hv : db.waits.get? b.id = some v)
    (ha : v.status = .active) :
    (deliver db b o cs reason now event).1.waits.get? b.id =
      some { v with status := endStatus reason, conditions := cs, updated := now,
                    delivered := some now } ∧
    (deliver db b o cs reason now event).1.stateOf b.workId ≠ some .waitingExternal := by
  have hid := Table.get?_key hv
  have hactive : db.isActive b.id = true := by
    simp only [isActive, List.any_eq_true, Bool.and_eq_true, beq_iff_eq]
    exact ⟨v, Table.get?_mem hv, hid, ha⟩
  unfold deliver
  dsimp only
  rw [if_neg (by simp [hready.1, hready.2]), if_neg (by simp [hactive])]
  constructor
  · simp only [deliverActive, wakeSignalled, insertInput_waits, endWait, updateActive,
      Table.get?_update, hv, Option.map_some]
    rw [if_pos (by simp [hid, ha])]
  · intro hstate
    obtain ⟨w, hw, hs⟩ := stateOf_eq_some.mp hstate
    simp only [deliverActive, wakeSignalled, Table.get?_update, insertInput_works, endWait,
      updateActive, Option.map_eq_some_iff] at hw
    obtain ⟨w', hw', rfl⟩ := hw
    have hwid := Table.get?_key hw'
    split at hs
    · simp at hs
    · rename_i hp
      simp [hwid, hs] at hp

/-- A wait that has ended is left alone. -/
theorem deliver_ended {db : Db} {b : Binding} {o : Option Original} {v : WaitRow}
    (cs : List Condition) (reason : SignalReason) (now : Time) (event : Option Int)
    (hv : db.waits.get? b.id = some v) (ha : v.status ≠ .active) :
    (deliver db b o cs reason now event).1.waits.get? b.id = some v := by
  have hkept {f : WaitRow → WaitRow} (hf : ∀ w, (f w).id = w.id) :
      (db.updateActive b.id f hf).waits.get? b.id = some v := by
    rw [updateActive, Table.get?_update, hv, Option.map_some, if_neg (by simp [ha])]
  unfold deliver
  dsimp only
  split
  · exact hkept _
  split
  · exact hv
  · simp only [deliverActive, wakeSignalled, insertInput_waits, endWait]
    exact hkept _

theorem deliver_spared {db : Db} {b : Binding} {o : Option Original} {id : String}
    (cs : List Condition) (reason : SignalReason) (now : Time) (event : Option Int)
    (hready : b.id = id → Ready (o.getD (db.original b)) b) :
    Spared id db (deliver db b o cs reason now event).1 := by
  by_cases hb : b.id = id
  swap
  · exact .of_eq (deliver_other fun h => hb h.symm)
  subst hb
  have hr := hready rfl
  unfold deliver
  dsimp only
  rw [if_neg (by simp [hr.1, hr.2])]
  split
  · exact .of_eq rfl
  · refine .of_map (f := fun w => if (w.id == b.id && w.status == .active) = true then
        { w with status := endStatus reason, conditions := cs, updated := now,
                 delivered := some now } else w) ?_ fun v hs => ?_
    · simp only [deliverActive, wakeSignalled, insertInput_waits, endWait, updateActive,
        Table.get?_update]
    · split at hs
      · cases reason <;> simp [endStatus] at hs
      · exact hs

theorem updateActive_spared {db : Db} {k id : String} {f : WaitRow → WaitRow}
    (hf : ∀ w, (f w).id = w.id) (h : k = id → ∀ w, (f w).status = w.status) :
    Spared id db (db.updateActive k f hf) := by
  by_cases hk : k = id
  · refine .of_map (Table.get?_update _ _ _ hf id) fun v hs => ?_
    split at hs
    · rwa [h hk] at hs
    · exact hs
  · exact .of_eq (updateActive_other hf fun e => hk e.symm)

theorem signalExternalAction_spared {db : Db} {now : Time} {workId runId id : String}
    {prepared : PreparedWaitAction} (h : ∀ b, prepared.binding = some b → b.id = id →
      Ready (prepared.original.getD (db.original b)) b) :
    Spared id db (signalExternalAction db now workId runId prepared) := by
  unfold signalExternalAction
  split
  · exact .of_eq rfl
  split
  · exact .of_eq rfl
  split
  · rename_i b hb
    split
    · exact deliver_spared _ _ _ _ (h b hb)
    · exact .of_eq rfl
  · exact .of_eq rfl

/-- A row whose wait is live in the table it was read from. -/
def DueRow.ready (row : DueRow) : Prop :=
  Ready row.original row.binding ∧ row.original.state ≠ none

theorem dueRow_ready {db : Db} {v : WaitRow} (h : db.Live v) (hr : db.Recorded)
    (hv : v ∈ db.waits.rows) (hs : v.status = .active) : (db.dueRow v).ready := by
  refine ⟨h.ready hr hv hs, ?_⟩
  obtain ⟨w, hw, -⟩ := h.work
  simp [dueRow, original, WaitRow.binding, hw]

/-- The row of a wait among the rows of the table. -/
theorem dueRows_row {db : Db} {p : WaitRow → Bool} {row : DueRow} {v : WaitRow}
    (hrow : row ∈ db.dueRows p) (hv : db.waits.get? row.binding.id = some v) :
    row = db.dueRow v := by
  obtain ⟨w, hw, rfl⟩ := List.mem_map.mp (List.mem_mergeSort.mp hrow)
  have hw' := Table.mem_rows.mp (List.mem_of_mem_filter hw)
  rw [Option.some.inj (hv.symm.trans hw')]

theorem pollWait_spared {id : String} (p : PreparedDue) (now : Time) (s : Db × Nat) (row : DueRow)
    (h : row.binding.id = id → row.ready) : Spared id s.1 (pollWait p now s row).1 := by
  unfold pollWait
  split
  · exact .of_eq rfl
  split
  · exact .of_eq rfl
  · rename_i hobs
    refine updateActive_spared _ fun hid => ?_
    obtain ⟨hready, hstate⟩ := h hid
    unfold observeDue at hobs
    rw [if_neg (by simp [hready.1, hstate])] at hobs
    dsimp only at hobs
    split at hobs
    · cases hobs
    split at hobs
    · cases hobs
    split at hobs <;> cases hobs
  · exact updateActive_spared _ fun _ _ => rfl
  · exact deliver_spared _ _ _ _ fun hid => (h hid).1

theorem applyToWait_spared {id : String} (kind : EventKind) (e : EventRow) (now : Time)
    (s : EventEffect) (row : DueRow) (h : row.binding.id = id → row.ready) :
    Spared id s.db (applyToWait kind e now s row).db := by
  unfold applyToWait
  split
  · exact .of_eq rfl
  dsimp only
  split
  · exact deliver_spared _ _ _ _ fun hid => (h hid).1
  · exact updateActive_spared _ fun _ _ => rfl

theorem fold_spared {σ : Type} (get : σ → Db) {f : σ → DueRow → σ} {id : String}
    {rows : List DueRow} (s : σ)
    (hf : ∀ s row, (row.binding.id = id → row.ready) → Spared id (get s) (get (f s row)))
    (h : ∀ row ∈ rows, row.binding.id = id → row.ready) :
    Spared id (get s) (get (rows.foldl f s)) := by
  induction rows generalizing s with
  | nil => exact .of_eq rfl
  | cons row rows ih =>
    exact (hf s row (h row (List.mem_cons_self ..))).trans
      (ih _ fun other hmem => h other (List.mem_cons_of_mem _ hmem))

section

variable {db db' : Db} {now : Time} {id : String} {v : WaitRow}

theorem deliverPrepared_spared (hr : db.Recorded) (hv : db.waits.get? id = some v)
    (hs : v.status = .active) (hlive : db.Live v) (p : PreparedDue) :
    Spared id db (deliverPrepared db now p).1 := by
  unfold deliverPrepared
  split
  · exact .of_eq rfl
  split
  · exact .of_eq rfl
  · refine fold_spared Prod.fst (db, 0) (pollWait_spared p now) fun row hrow hid => ?_
    rw [dueRows_row hrow (hid ▸ hv)]
    exact dueRow_ready hlive hr (Table.get?_mem hv) hs

theorem matchRound_spared (hr : db.Recorded) (hv : db.waits.get? id = some v)
    (hs : v.status = .active) (hlive : db.Live v) {eventId : Int} {kind : EventKind}
    {conversationId : String} {prepared : List DueRow} {hook : Except Err Unit}
    {r : Option (Option Nat)}
    (h : matchRound db now eventId kind conversationId prepared hook = .ok (db', r)) :
    Spared id db db' := by
  rcases matchRound_cases h with rfl | ⟨e, c, rfl⟩
  · exact .of_eq rfl
  · refine fold_spared EventEffect.db ⟨db, none, false⟩ (applyToWait_spared kind e now)
      fun row hrow hid => ?_
    rw [dueRows_row (List.mem_of_mem_filter hrow) (hid ▸ hv)]
    exact dueRow_ready hlive hr (Table.get?_mem hv) hs

theorem callbacks_spared (hr : db.Recorded) (hv : db.waits.get? id = some v)
    (hs : v.status = .active) (hlive : db.Live v) (cs : List Callback) :
    Spared id db (callbacks db now cs) := by
  have hfold (d : Db) (cs : List Callback) (h : ∀ c ∈ cs, ∀ b, c.prepared.binding = some b →
      b.id = id → ∃ o, c.prepared.original = some o ∧ Ready o b) :
      Spared id d (cs.foldl (callback now) d) := by
    induction cs generalizing d with
    | nil => exact .of_eq rfl
    | cons c cs ih =>
      refine .trans ?_ (ih _ fun c' hc' => h c' (List.mem_cons_of_mem _ hc'))
      have hinserted : Spared id d (d.insertInput (c.input now)).1 :=
        .of_eq (by rw [insertInput_waits])
      unfold callback
      dsimp only
      split
      · exact hinserted
      · refine hinserted.trans (signalExternalAction_spared fun b hb hid => ?_)
        obtain ⟨o, ho, hready⟩ := h c (List.mem_cons_self ..) b hb hid
        rwa [ho, Option.getD_some]
  unfold callbacks
  split
  · rename_i hcurrent
    refine hfold db cs fun c hc b hb hid => ?_
    have hc := List.all_eq_true.mp hcurrent c hc
    simp only [externalActionCurrent, beq_iff_eq] at hc
    rw [← hc] at hb ⊢
    unfold prepareExternalAction at hb ⊢
    split at hb
    · rename_i row hrow
      obtain rfl := Option.some.inj hb
      refine ⟨row.original, rfl, ?_⟩
      rw [dueRows_row (List.mem_of_head? hrow) (hid ▸ hv)]
      exact hlive.ready hr (Table.get?_mem hv) hs
    · cases hb
  · exact .of_eq rfl

theorem register_spared {timestamp : String → Option (Option Time)} {lease : WorkLease}
    {r : Registration} {fresh wait : String} (hv : db.waits.get? id = some v)
    (h : register timestamp db now lease r fresh = .ok (db', wait)) : Spared id db db' := by
  rcases register_cases h with ⟨rfl, -⟩ | ⟨-, w, row, rfl, hactive, -, -, -, -, -, -, -, -, hnew⟩
  · exact .of_eq rfl
  obtain ⟨inserted, decided, hins, hcalm, -, -, rfl⟩ := registerNew_cases hnew
  have hcancelled := (cancelActiveWaits_calm db now r.workId).spared id
  obtain ⟨hfresh, rfl⟩ := insertWait_waits hins
  have hne : id ≠ w.id := by
    rintro rfl
    refine hfresh ?_
    rw [cancelActiveWaits, Table.keys_update]
    exact Table.get?_isSome.mp ⟨v, hv⟩
  have hinserted : Spared id (db.cancelActiveWaits now r.workId)
      { db.cancelActiveWaits now r.workId with
        waits := (db.cancelActiveWaits now r.workId).waits.insert w } :=
    .of_eq (by simp [Table.get?_insert, hne.symm])
  refine ((hcancelled.trans hinserted).trans (hcalm.spared id)).trans ?_
  generalize pendingRuns decided r.workId = runs
  clear hcalm hnew h
  induction runs generalizing decided with
  | nil => exact .of_eq rfl
  | cons run runs ih =>
    refine (signalExternalAction_spared fun b hb hid => ?_).trans (ih _)
    obtain rfl := Option.some.inj hb
    exact absurd hid.symm hne

/-- No writer invalidates an active wait of a live Work. -/
theorem WaitOp.spared {op : WaitOp} (hop : op.exec db now = .ok db') (hr : db.Recorded)
    (hv : db.waits.get? id = some v) (hs : v.status = .active) (hlive : db.Live v) :
    Spared id db db' := by
  cases op with
  | register =>
    obtain ⟨r, hreg, rfl⟩ := map_eq_ok.mp hop
    exact register_spared hv hreg
  | cancel =>
    obtain ⟨r, hc, rfl⟩ := map_eq_ok.mp hop
    exact (cancel_calm hc).spared id
  | matchRound =>
    obtain ⟨r, hm, rfl⟩ := map_eq_ok.mp hop
    exact matchRound_spared hr hv hs hlive hm
  | deliverDue =>
    obtain rfl := Except.ok.inj hop
    exact deliverPrepared_spared hr hv hs hlive _
  | callbacks =>
    obtain rfl := Except.ok.inj hop
    exact callbacks_spared hr hv hs hlive _
  | commitState =>
    obtain ⟨r, hc, rfl⟩ := map_eq_ok.mp hop
    exact (commitState_calm hc).spared id
  | manageWork =>
    obtain ⟨r, hm, rfl⟩ := map_eq_ok.mp hop
    exact (manageWork_calm hm).spared id
  | stopOwnedExecution =>
    obtain rfl := Except.ok.inj hop
    exact (stopOwnedExecution_calm db now _ _).spared id

/-- The registrations whose principal is recorded letter for letter. -/
def WaitOp.literal (db : Db) : WaitOp → Prop
  | register _ _ r _ => Literal r db
  | _ => True

theorem WaitOp.recorded {op : WaitOp} (hop : op.exec db now = .ok db') (hlit : op.literal db)
    (hr : db.Recorded) : db'.Recorded := by
  cases op with
  | register =>
    obtain ⟨r, hreg, rfl⟩ := map_eq_ok.mp hop
    exact register_recorded hreg hlit hr
  | cancel =>
    obtain ⟨r, hc, rfl⟩ := map_eq_ok.mp hop
    exact (cancel_calm hc).recorded hr
  | matchRound =>
    obtain ⟨r, hm, rfl⟩ := map_eq_ok.mp hop
    exact (matchRound_steady hm).recorded hr
  | deliverDue =>
    obtain rfl := Except.ok.inj hop
    exact (deliverPrepared_steady db now _).recorded hr
  | callbacks =>
    obtain rfl := Except.ok.inj hop
    exact (callbacks_steady db now _).recorded hr
  | commitState =>
    obtain ⟨r, hc, rfl⟩ := map_eq_ok.mp hop
    exact (commitState_calm hc).recorded hr
  | manageWork =>
    obtain ⟨r, hm, rfl⟩ := map_eq_ok.mp hop
    exact (manageWork_calm hm).recorded hr
  | stopOwnedExecution =>
    obtain rfl := Except.ok.inj hop
    exact (stopOwnedExecution_calm db now _ _).recorded hr

end

/-! The delivery that observes a due wait. -/

/-- The wait ended with its signal in the mailbox, and its Work does not wait for it. -/
def Db.Delivered (db : Db) (id : String) : Prop :=
  db.Signalled id ∧ ∃ w, db.waits.get? id = some w ∧
    (w.status = .delivered ∨ w.status = .expired) ∧ db.stateOf w.workId ≠ some .waitingExternal

/-- Works do not start to wait. -/
def Wakes (db db' : Db) : Prop :=
  ∀ id, db'.stateOf id = some .waitingExternal → db.stateOf id = some .waitingExternal

theorem Wakes.of_works {db db' : Db} (h : db'.works = db.works) : Wakes db db' := by
  intro id hs
  rwa [stateOf, h] at hs

theorem deliver_wakes (db : Db) (b : Binding) (o : Option Original) (cs : List Condition)
    (reason : SignalReason) (now : Time) (event : Option Int) :
    Wakes db (deliver db b o cs reason now event).1 := by
  unfold deliver
  dsimp only
  split
  · exact .of_works rfl
  split
  · exact .of_works rfl
  · intro id hs
    obtain ⟨w, hw, hstate⟩ := stateOf_eq_some.mp hs
    simp only [deliverActive, wakeSignalled, Table.get?_update, insertInput_works, endWait,
      updateActive, Option.map_eq_some_iff] at hw
    obtain ⟨w', hw', rfl⟩ := hw
    split at hstate
    · simp at hstate
    · exact stateOf_eq_some.mpr ⟨w', hw', hstate⟩

/-- A delivered wait stays so under changes that keep its row and start no Work to wait. -/
theorem Db.Delivered.kept {db db' : Db} {id : String} (h : db.Delivered id) (hs : Serves db db')
    (hh : db.Honest) (hwaits : db'.waits.get? id = db.waits.get? id) (hw : Wakes db db') :
    db'.Delivered id := by
  obtain ⟨hsig, w, hget, hstatus, hstate⟩ := h
  exact ⟨hs.signalled_kept hh hsig, w, hwaits.trans hget, hstatus, fun h => hstate (hw _ h)⟩

/-- In a fold over rows of different waits, what one row does to its own wait stands. -/
theorem fold_delivered {σ : Type} (get : σ → Db) {f : σ → DueRow → σ} {rows : List DueRow}
    (row : DueRow) (s : σ)
    (hserves : ∀ s row, row.holds (get s) → Serves (get s) (get (f s row)))
    (hother : ∀ s row k, k ≠ row.binding.id →
      (get (f s row)).waits.get? k = (get s).waits.get? k)
    (hwakes : ∀ s row, Wakes (get s) (get (f s row)))
    (hnodup : (rows.map fun row => row.binding.id).Nodup) (hholds : ∀ row ∈ rows, row.holds (get s))
    (hh : (get s).Honest) (hrow : row ∈ rows)
    (hone : ∀ s', (get s').waits.get? row.binding.id = (get s).waits.get? row.binding.id →
      (get s').Honest → row.holds (get s') → (get (f s' row)).Delivered row.binding.id) :
    (get (rows.foldl f s)).Delivered row.binding.id := by
  have hafter (rows : List DueRow) (s : σ)
      (hnodup : (rows.map fun row => row.binding.id).Nodup)
      (hholds : ∀ row ∈ rows, row.holds (get s)) (hh : (get s).Honest)
      (hne : row.binding.id ∉ rows.map fun row => row.binding.id)
      (hd : (get s).Delivered row.binding.id) :
      (get (rows.foldl f s)).Delivered row.binding.id := by
    induction rows generalizing s with
    | nil => exact hd
    | cons r rows ih =>
      rw [List.map_cons, List.nodup_cons] at hnodup
      simp only [List.map_cons, List.mem_cons, not_or] at hne
      have hs := hserves s r (hholds r (List.mem_cons_self ..))
      refine ih _ hnodup.2 (fun r' hr' => ?_) ((hs.moves hh).honest hh) hne.2
        (hd.kept hs hh (hother s r _ hne.1) (hwakes s r))
      refine (hholds r' (List.mem_cons_of_mem _ hr')).kept (hother s r _ fun he => ?_)
      exact hnodup.1 (he ▸ List.mem_map_of_mem hr')
  induction rows generalizing s with
  | nil => simp at hrow
  | cons r rows ih =>
    rw [List.map_cons, List.nodup_cons] at hnodup
    have hr := hholds r (List.mem_cons_self ..)
    have hs := hserves s r hr
    have hholds' : ∀ r' ∈ rows, r'.holds (get (f s r)) := fun r' hr' =>
      (hholds r' (List.mem_cons_of_mem _ hr')).kept (hother s r _ fun he =>
        hnodup.1 (he ▸ List.mem_map_of_mem hr'))
    have hh' := (hs.moves hh).honest hh
    rcases List.mem_cons.mp hrow with rfl | hmem
    · exact hafter rows _ hnodup.2 hholds' hh' hnodup.1 (hone s rfl hh hr)
    · have hne : row.binding.id ≠ r.binding.id := fun he =>
        hnodup.1 (he ▸ List.mem_map_of_mem hmem)
      refine ih _ hnodup.2 hholds' hh' hmem fun s' hkept => ?_
      exact hone s' (hkept.trans (hother s r _ hne))

theorem pollWait_wakes (p : PreparedDue) (now : Time) (s : Db × Nat) (row : DueRow) :
    Wakes s.1 (pollWait p now s row).1 := by
  unfold pollWait
  split
  · exact .of_works rfl
  split
  · exact .of_works rfl
  · exact .of_works rfl
  · exact .of_works rfl
  · exact deliver_wakes _ _ _ _ _ _ _

theorem applyToWait_wakes (kind : EventKind) (e : EventRow) (now : Time) (s : EventEffect)
    (row : DueRow) : Wakes s.db (applyToWait kind e now s row).db := by
  unfold applyToWait
  split
  · exact .of_works rfl
  dsimp only
  split
  · exact deliver_wakes _ _ _ _ _ _ _
  · exact .of_works rfl

/-- The delivery of an active wait that is ready. -/
theorem deliver_delivered {db : Db} {b : Binding} {o : Option Original} {v : WaitRow}
    {cs : List Condition} {reason : SignalReason} {now : Time} {event : Option Int}
    (hready : Ready (o.getD (db.original b)) b) (hv : db.waits.get? b.id = some v)
    (hwork : v.workId = b.workId) (ha : v.status = .active) (hh : db.Honest)
    (hs : Serves db (deliver db b o cs reason now event).1) :
    (deliver db b o cs reason now event).1.Delivered b.id := by
  obtain ⟨hget, hstate⟩ := deliver_ends cs reason now event hready hv ha
  have hend : endStatus reason = .delivered ∨ endStatus reason = .expired := by
    cases reason <;> simp [endStatus]
  refine ⟨hs.signalled hh b.id ?_ ?_, _, hget, hend, hwork ▸ hstate⟩
  · simp [hv, WaitRow.ended, ha]
  · rcases hend with h | h <;> simp [hget, WaitRow.ended, h]

section

variable {db db' : Db} {now : Time} {id : String} {v : WaitRow}

theorem observeDue_live {row : DueRow} (h : row.ready) {cs : List Condition}
    {states : List ((String × String) × RunState)} (now : Time)
    (hdue : row.mode.met ((cs.map Condition.dropText).map
        (observeCondition row.binding.workId states now)) = true ∨
      expiredAt row.deadline now = true) :
    ∃ cs' reason, observeDue row cs states now = some (.due cs' reason) := by
  unfold observeDue
  rw [if_neg (by simp [h.1.1, h.2])]
  dsimp only
  split
  · exact ⟨_, _, rfl⟩
  · rename_i hmet
    rw [if_pos (hdue.resolve_left hmet)]
    exact ⟨_, _, rfl⟩

theorem dueRows_mem {p : WaitRow → Bool} (hv : db.waits.get? id = some v) (hs : v.status = .active)
    (hp : p v = true) : db.dueRow v ∈ db.dueRows p :=
  List.mem_mergeSort.mpr (List.mem_map_of_mem
    (List.mem_filter.mpr ⟨Table.get?_mem hv, by simp [hs, hp]⟩))

/-- A poll that has prepared a live wait as it stands, and finds it due, delivers it. -/
theorem deliverPrepared_delivered (hserving : db.Serving) (hr : db.Recorded)
    (hv : db.waits.get? id = some v) (hs : v.status = .active) (hlive : db.Live v)
    {p : PreparedDue} (hcurrent : ownedRunsCurrent (ownedRuns db (requestedRuns p.bindings)) p.runs = true)
    (hprepared : (preparedFor p (db.dueRow v)).isSome = true)
    (hdue : v.mode.met ((v.conditions.map Condition.dropText).map
        (observeCondition v.workId p.states now)) = true ∨ expiredAt v.deadline now = true) :
    (deliverPrepared db now p).1.Delivered id := by
  have hh : db.Honest := db.honest_iff.mpr hserving.signals
  have hmem := Table.get?_mem hv
  have hready := dueRow_ready hlive hr hmem hs
  obtain ⟨before, hbefore⟩ := Option.isSome_iff_exists.mp hprepared
  obtain ⟨hfind, -⟩ := Option.filter_eq_some_iff.mp hbefore
  have hin := List.mem_of_find?_eq_some hfind
  have hsame : (before.binding.id == v.id) = true :=
    List.find?_some (p := fun before : DueRow => before.binding.id == v.id) hfind
  have hrow : db.dueRow v ∈ polledRows db p :=
    dueRows_mem hv hs (List.any_eq_true.mpr ⟨before, hin, hsame⟩)
  have hne : p.bindings.isEmpty = false := by
    cases hb : p.bindings with
    | nil => simp [hb] at hin
    | cons => rfl
  obtain rfl := Table.get?_key hv
  unfold deliverPrepared
  rw [if_neg (by simp [hne]), if_neg (by simp [hcurrent])]
  refine fold_delivered Prod.fst (db.dueRow v) (db, 0) (pollWait_serves p now)
    (pollWait_other p now) (pollWait_wakes p now) (dueRows_nodup db _) (fun _ => dueRows_holds) hh
    hrow fun s hkept hh' hholds => ?_
  have hserves := pollWait_serves p now s _ hholds
  obtain ⟨cs, reason, hobs⟩ := observeDue_live hready now hdue
  have hpoll : (pollWait p now s (db.dueRow v)).1 =
      (deliver s.1 v.binding (some (db.original v.binding)) cs reason now none).1 := by
    have hconds : before.conditions = v.conditions := preparedFor_conditions hbefore
    simp only [pollWait, hbefore, hconds, hobs]
    rfl
  rw [hpoll] at hserves ⊢
  exact deliver_delivered (b := v.binding) hready.1 (hkept.trans hv) rfl hs hh' hserves

/-- An event that meets a live wait delivers it, where its writer finds the waits as prepared. -/
theorem matchRound_delivered (hserving : db.Serving) (hr : db.Recorded)
    (hv : db.waits.get? id = some v) (hs : v.status = .active) (hlive : db.Live v) {eventId : Int}
    {kind : EventKind} {e : EventRow} {hook : Except Err Unit} {r : Option (Option Nat)}
    (he : db.events.get? eventId = some e) (hconv : e.canonicalConversationId = some v.conversationId)
    (hnamed : v.conversationId ≠ "") (hserves : eventServes kind e = true)
    (hmeets : (v.conditions.any fun c => eventMeets kind e c.dropText) = true)
    (hmet : v.mode.met (v.conditions.map (meetEvent kind e now)) = true)
    (h : matchRound db now eventId kind v.conversationId (prepareEventWaits db v.conversationId)
      hook = .ok (db', r)) : db'.Delivered id := by
  have hh : db.Honest := db.honest_iff.mpr hserving.signals
  have hmem := Table.get?_mem hv
  have hready := dueRow_ready hlive hr hmem hs
  obtain ⟨c, hc, hgen⟩ : ∃ c, db.conversations.get? v.conversationId = some c ∧
      c.generation = v.generation := by
    simp only [Live, Original.alive, original, WaitRow.binding, conversationGeneration,
      Bool.and_eq_true, beq_iff_eq, Option.map_eq_some_iff] at hlive
    obtain ⟨c, hc, hg⟩ := hlive.1.1
    exact ⟨c, hc, hg⟩
  have hprepared : db.dueRow v ∈ prepareEventWaits db v.conversationId :=
    dueRows_mem hv hs (by simp)
  have hmay : mayMatch eventId kind (prepareEventWaits db v.conversationId) = true := by
    obtain ⟨cond, hcond, hm⟩ := List.any_eq_true.mp hmeets
    refine List.any_eq_true.mpr ⟨_, hprepared, List.any_eq_true.mpr ⟨cond, hcond, ?_⟩⟩
    have hid := Table.get?_key he
    have hopen : cond.dropText.open_ = cond.open_ := by simp [Condition.open_, Condition.dropText]
    have hkind : cond.dropText.kind = cond.kind := rfl
    simp only [eventMeets, hopen, hkind, hid, Bool.and_eq_true] at hm ⊢
    refine ⟨hm.1, ?_⟩
    cases kind <;> cases hk : cond.kind <;> simp_all
  unfold matchRound applyCurrent at h
  rw [if_pos hmay, if_pos (by simp [eventWaitsCurrent])] at h
  obtain ⟨⟨d, m⟩, ha, h⟩ := map_eq_ok.mp h
  obtain ⟨rfl, -⟩ := Prod.mk.inj h
  have hfilter : (e.canonicalConversationId.filter fun id => id ≠ "").bind db.conversations.get? =
      some c := by
    simp [hconv, Option.filter, hnamed, hc]
  simp only [applyEvent, he, hfilter, hserves, Bool.true_eq_false, if_false, bind_eq_ok,
    pure_eq_ok] at ha
  obtain ⟨-, -, ha⟩ := ha
  obtain ⟨rfl, -⟩ := Prod.mk.inj ha
  have hrow : db.dueRow v ∈ eventWaits (prepareEventWaits db v.conversationId) e c := by
    refine List.mem_filter.mpr ⟨hprepared, ?_⟩
    simp [hconv, hgen, dueRow, WaitRow.binding]
  obtain rfl := Table.get?_key hv
  refine fold_delivered EventEffect.db (db.dueRow v) ⟨db, none, false⟩
    (applyToWait_serves kind e now) (applyToWait_other kind e now) (applyToWait_wakes kind e now)
    ((List.Sublist.map _ List.filter_sublist).nodup (dueRows_nodup db _))
    (fun _ hmem => dueRows_holds (List.mem_of_mem_filter hmem)) hh hrow fun s hkept hh' hholds => ?_
  have hone := applyToWait_serves kind e now s _ hholds
  have happly : (applyToWait kind e now s (db.dueRow v)).db =
      (deliver s.db v.binding (some (db.original v.binding))
        (v.conditions.map (meetEvent kind e now)) .signal now
        (if kind = .conversation then some e.id else none)).1 := by
    have hm : ((db.dueRow v).conditions.any fun c => eventMeets kind e c.dropText) = true := hmeets
    have hm' : (db.dueRow v).mode.met ((db.dueRow v).conditions.map (meetEvent kind e now)) = true :=
      hmet
    simp only [applyToWait, hm, hm', Bool.true_eq_false, if_false, if_true]
    rfl
  rw [happly] at hone ⊢
  exact deliver_delivered (b := v.binding) hready.1 (hkept.trans hv) rfl hs hh' hone

theorem signalExternalAction_cases (db : Db) (now : Time) (workId runId : String) (b : Binding)
    (o : Option Original) (cs : List Condition) :
    signalExternalAction db now workId runId ⟨some b, o, cs⟩ = db ∨
      signalExternalAction db now workId runId ⟨some b, o, cs⟩ =
        (deliver db b o cs .requiresAction now none).1 := by
  unfold signalExternalAction
  split
  · exact .inl rfl
  split
  · exact .inl rfl
  · dsimp only
    split
    · exact .inr rfl
    · exact .inl rfl

/-- The callbacks that were waiting for a new wait end it or leave it. -/
theorem signals_end {w : WaitRow} {workId : String} {d : Db} (runs : List String)
    (hw : d.waits.get? w.id = some w) (ha : w.status = .active)
    (hready : Ready (d.original w.binding) w.binding) :
    ∃ w', (runs.foldl (fun d run => signalExternalAction d now workId run
        ⟨some w.binding, none, w.conditions⟩) d).waits.get? w.id = some w' ∧
      w'.status ≠ .invalidated := by
  have hended (runs : List String) (d : Db) (w' : WaitRow) (hw' : d.waits.get? w.id = some w')
      (hne : w'.status ≠ .active) :
      (runs.foldl (fun d run => signalExternalAction d now workId run
        ⟨some w.binding, none, w.conditions⟩) d).waits.get? w.id = some w' := by
    induction runs generalizing d with
    | nil => exact hw'
    | cons run runs ih =>
      rw [List.foldl_cons]
      refine ih _ ?_
      rcases signalExternalAction_cases d now workId run w.binding none w.conditions with h | h
      · rwa [h]
      · rw [h]
        exact deliver_ended (b := w.binding) _ _ _ _ hw' hne
  induction runs generalizing d with
  | nil => exact ⟨w, hw, by simp [ha]⟩
  | cons run runs ih =>
    rw [List.foldl_cons]
    rcases signalExternalAction_cases d now workId run w.binding none w.conditions with h | h
    · rw [h]
      exact ih hw hready
    · obtain ⟨hget, -⟩ := deliver_ends (b := w.binding) (o := none) w.conditions .requiresAction now
        none hready hw ha
      exact ⟨_, by rw [h]; exact hended runs _ _ hget (by simp [endStatus]), by simp [endStatus]⟩

/-- A wait is not invalidated while it is registered, if its Work is live then. -/
theorem register_kept {timestamp : String → Option (Option Time)} {lease : WorkLease}
    {r : Registration} {fresh wait : String}
    (h : register timestamp db now lease r fresh = .ok (db', wait)) (hlit : Literal r db)
    (hconv : db.conversationGeneration lease.conversationId = some lease.generation) :
    ∃ w, db'.waits.get? wait = some w ∧ w.status ≠ .invalidated := by
  rcases register_cases h with ⟨rfl, v, hv, rfl, hs⟩ |
    ⟨rfl, w, row, rfl, ha, hwork, hp, hrow, hlive, hgen, hwc, hwg, hallowed, hnew⟩
  · exact ⟨v, Table.mem_rows.mp hv, by simp [hs]⟩
  obtain ⟨inserted, decided, hins, -, hwaits, horiginal, rfl⟩ := registerNew_cases hnew
  have hrow' : db.works.get? w.binding.workId = some row := by rw [← hrow, ← hwork]; rfl
  have hready : Ready (db.original w.binding) w.binding := by
    refine ⟨?_, (original_recorded hrow').trans
      (admitted_recorded (b := w.binding) hp hwork hrow hallowed hlit)⟩
    simp only [Original.alive, original, WaitRow.binding, hwc, hwg, hconv, hwork, hrow,
      Option.map_some, Option.any_some, hlive, hgen]
    simp
  have hsame : decided.original w.binding = db.original w.binding := by
    rw [horiginal, (insertWait_waits hins).2]
    rfl
  exact signals_end _ (hwaits ▸ insertWait_stored hins) ha (hsame ▸ hready)

end

/-! Runs. -/

/-- A transaction of one writer, each registration under the recorded id, or one that touches no
wait, sends no signal and changes the source of no unfinished Work. -/
inductive DeliveryStep : Db → Option (WaitOp × Time) → Db → Prop
  | commit {db db' : Db} {op : WaitOp} {now : Time} :
      op.exec db now = .ok db' → op.literal db → DeliveryStep db (some (op, now)) db'
  | rollback {db : Db} {op : WaitOp} {now : Time} {e : Err} :
      op.exec db now = .error e → DeliveryStep db (some (op, now)) db
  | other {db db' : Db} : SameMail db db' → db'.waits = db.waits → Steady db db' →
      DeliveryStep db none db'

theorem DeliveryStep.serving {db db' : Db} {e : Option (WaitOp × Time)}
    (h : DeliveryStep db e db') (hi : db.Serving ∧ db.Recorded) : db'.Serving ∧ db'.Recorded := by
  cases h with
  | commit h hlit => exact ⟨(WaitOp.serves h).serving hi.1, WaitOp.recorded h hlit hi.2⟩
  | rollback => exact hi
  | other hmail hwaits hsteady =>
    exact ⟨(Serves.of_mail hmail hwaits).serving hi.1, hsteady.recorded hi.2⟩

/-- In every run whose registrations name the recorded principal letter for letter: a writer
invalidates no active wait of a live Work; a registration leaves its wait active or ended with its
signal; and a poll that has prepared such a wait as it stands and finds it due, or an event that
meets it, ends it with its signal and wakes its Work. -/
theorem accepted_waits_delivered {db db' : Db} {es : List (Option (WaitOp × Time))}
    (h : Run DeliveryStep db es db') (hs : db.Serving) (hr : db.Recorded) :
    (∀ (timestamp : String → Option (Option Time)) (lease : WorkLease) (r : Registration)
      (fresh wait : String) (now : Time) (t : Db),
      register timestamp db' now lease r fresh = .ok (t, wait) → Literal r db' →
      db'.conversationGeneration lease.conversationId = some lease.generation →
      ∃ w, t.waits.get? wait = some w ∧ w.status ≠ .invalidated) ∧
    ∀ id v, db'.waits.get? id = some v → v.status = .active → db'.Live v →
      (∀ (op : WaitOp) (now : Time) (t : Db), op.exec db' now = .ok t →
        ∀ w, t.waits.get? id = some w → w.status ≠ .invalidated) ∧
      (∀ (views : List (Db × Db)) (observedAt now : Time) (p : PreparedDue),
        p = prepareDue observedAt views none {} →
        ownedRunsCurrent (ownedRuns db' (requestedRuns p.bindings)) p.runs = true →
        (preparedFor p (db'.dueRow v)).isSome = true →
        v.mode.met ((v.conditions.map Condition.dropText).map
            (observeCondition v.workId p.states now)) = true ∨ expiredAt v.deadline now = true →
        (deliverDue views db' observedAt now).1.Delivered id) ∧
      ∀ (eventId : Int) (kind : EventKind) (e : EventRow) (hook : Except Err Unit) (now : Time)
        (t : Db) (r : Option (Option Nat)),
        db'.events.get? eventId = some e → e.canonicalConversationId = some v.conversationId →
        v.conversationId ≠ "" → eventServes kind e = true →
        (v.conditions.any fun c => eventMeets kind e c.dropText) = true →
        v.mode.met (v.conditions.map (meetEvent kind e now)) = true →
        matchRound db' now eventId kind v.conversationId
          (prepareEventWaits db' v.conversationId) hook = .ok (t, r) → t.Delivered id := by
  have hstep (s : Db) (e : Option (WaitOp × Time)) (t : Db) (hi : s.Serving ∧ s.Recorded)
      (hh : DeliveryStep s e t) : t.Serving ∧ t.Recorded := hh.serving hi
  obtain ⟨hserving, hrecorded⟩ := Run.invariant hstep h ⟨hs, hr⟩
  refine ⟨fun _ _ _ _ _ _ _ hreg hlit hconv => register_kept hreg hlit hconv,
    fun id v hv ha hlive => ⟨fun op now t hop w hw hinv => ?_, ?_, ?_⟩⟩
  · obtain ⟨v', hv', hs'⟩ := WaitOp.spared hop hrecorded hv ha hlive w hw hinv
    obtain rfl := Option.some.inj (hv.symm.trans hv')
    simp [ha] at hs'
  · rintro views observedAt now p rfl hcurrent hprepared hdue
    exact deliverPrepared_delivered hserving hrecorded hv ha hlive hcurrent hprepared hdue
  · intro eventId kind e hook now t r he hconv hnamed hserves hmeets hmet hm
    exact matchRound_delivered hserving hrecorded hv ha hlive he hconv hnamed hserves hmeets hmet hm

/-- The reminder is delivered at ten o'clock. -/
theorem accepted_waits_delivered_reminder :
    (deliverDue [(waitingDb, waitingDb)] waitingDb 10 10).1.Delivered "v" := by
  have hrecorded : waitingDb.Recorded := by
    intro v hv _ w hw _
    obtain rfl := List.mem_singleton.mp hv
    obtain rfl := List.mem_singleton.mp (Table.get?_mem hw)
    decide +kernel
  refine ((accepted_waits_delivered (.nil waitingDb) waitingDb_serving hrecorded).2 "v" armedWait rfl
    rfl (show (_ : Bool) = true by decide +kernel)).2.1 _ 10 10 _ rfl (by decide +kernel) (by decide +kernel)
    (.inl (by decide +kernel))

/-! A person's second id. -/

/-- A Work of the person `p1`, who was merged into `p2` since. -/
def mergedWork : WorkRow :=
  { id := "w", parentWorkId := none, conversationId := "c", generation := 1,
    sourceKey := "event:1", sourceJson := .obj [("actor_person_id", .str "p1")], goal := "remind",
    state := .running, created := 0, updated := 0 }

def mergedDb : Db :=
  { works := ⟨[mergedWork], by decide⟩
    persons := ⟨[⟨"p1", some "p2"⟩, ⟨"p2", none⟩], by decide⟩
    scopes := ⟨[⟨"c", 1, 0, 1, some "o", 300⟩], List.nodup_singleton "c"⟩
    conversations := ⟨[{ id := "c", generation := 1 }], List.nodup_singleton "c"⟩ }

def mergedLease : WorkLease := ⟨"c", 1, 0, 1, "o", none⟩

/-- The same person registers under the id of today. -/
def mergedRegistration : Registration :=
  { workId := "w", source := .obj [("actor_person_id", .str "p2")], callKey := "k", mode := "any",
    conditions := .arr [.obj [("kind", .str "time_due"), ("after_seconds", .int 10)]],
    deadlineAt := none, accepted := none }

/-- The wait is registered, the Work settles into it, and a poll comes when it is due. -/
def mergedRun : Except Err (Db × Db) := do
  let registered ← register (fun _ => none) mergedDb 0 mergedLease mergedRegistration "v"
  let settled ← commitState registered.1 1 mergedLease "w" .waitingExternal none none none none none
  return (settled.1, (deliverDue [(settled.1, settled.1)] settled.1 20 20).1)

/-- The poll invalidates the wait, and the Work waits on without one. -/
theorem merged_wait_lost : ∃ settled polled v w, mergedRun = .ok (settled, polled) ∧
    settled.waits.get? "v" = some v ∧ v.status = .active ∧ settled.Live v ∧
    v.conditions = [⟨.timeDue 10, none⟩] ∧
    polled.waits.get? "v" = some w ∧ w.status = .invalidated ∧ polled.inputs.rows = [] ∧
    polled.stateOf "w" = some .waitingExternal ∧ polled.hasActiveWait "w" = false := by
  have hsettled : (mergedRun.toOption.bind fun r => (r.1.waits.get? "v").map fun v =>
      (v.status, (r.1.original v.binding).alive v.generation, v.conditions)) =
      some (.active, true, [⟨.timeDue 10, none⟩]) := by decide +kernel
  have hpolled : (mergedRun.toOption.bind fun r => (r.2.waits.get? "v").map fun w =>
      (w.status, r.2.inputs.rows.length, r.2.stateOf "w", r.2.hasActiveWait "w")) =
      some (.invalidated, 0, some .waitingExternal, false) := by decide +kernel
  cases hrun : mergedRun with
  | error e => simp [hrun, Except.toOption] at hsettled
  | ok r =>
    simp only [hrun, Except.toOption, Option.bind_some, Option.map_eq_some_iff,
      Prod.mk.injEq] at hsettled hpolled
    obtain ⟨v, hv, hactive, hlive, hconds⟩ := hsettled
    obtain ⟨w, hw, hinvalidated, hinputs, hstate, hnone⟩ := hpolled
    exact ⟨r.1, r.2, v, w, rfl, hv, hactive, hlive, hconds, hw, hinvalidated,
      List.length_eq_zero_iff.mp hinputs, hstate, hnone⟩

end Yuki

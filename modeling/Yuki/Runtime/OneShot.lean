import Yuki.Lib.Transition
import Yuki.Runtime.Management
import Yuki.Runtime.Signals

/-! One-shot waits under every interleaving of their writers: a Work has one active
wait at most, a wait ends once, and its signal is in the mailbox exactly once. -/

namespace Yuki

open Db OneShot WorkRepository WorkWaitRepository

/-- The keys of the other writers are no signal keys. -/
theorem ne_signalKey {p : String} (hl : 5 ≤ p.toList.length)
    (hp : p.toList.take 5 ≠ "wait:".toList) (rest id : String) : p ++ rest ≠ signalKey id := by
  intro h
  have htake := congrArg (fun s => s.toList.take 5) h
  simp only [signalKey, String.toList_append, List.take_append_of_le_length hl] at htake
  rw [List.take_append_of_le_length (by decide)] at htake
  exact hp (htake.trans (by decide))

/-! Settlements and management. -/

section

variable (db : Db) (now : Time)

theorem reportResult_serves (row : WorkRow) : Serves db (reportResult db now row) := by
  unfold reportResult
  split
  · exact .refl db
  rename_i parentId _
  split
  · have hkey : ∀ id, (resultInput row parentId now).sourceKey ≠ signalKey id := by
      intro id
      simp only [resultInput, String.append_assoc]
      exact ne_signalKey (by decide) (by decide) _ id
    exact (Serves.of_mail (.insert _ hkey) (insertInput_waits db _)).trans
      (.of_mail (.of_eq rfl) rfl)
  · exact .refl db

theorem settle_serves (lease : WorkLease) (identity : String) (s : Settling)
    (reason goal : Option String) (detail : Option RecoveryDetail) :
    Serves db (settle db now lease identity s reason goal detail) := by
  have hwritten : Serves db (writeSettled db now identity s goal) := .of_mail (.of_eq rfl) rfl
  have hstopped := hwritten.trans (stopOwnedExecution_serves _ now identity reason)
  have hrecorded (d : Db) : Serves d (recordExit d now lease identity s.exitReason detail) :=
    .of_mail (.of_eq (by simp)) (by simp)
  unfold settle
  dsimp only
  split <;> split
  · exact (hstopped.trans (hrecorded _)).trans (cancelActiveWaits_serves _ now identity)
  · exact (hwritten.trans (hrecorded _)).trans (cancelActiveWaits_serves _ now identity)
  · exact hstopped.trans (hrecorded _)
  · exact hwritten.trans (hrecorded _)

theorem reportStop_serves (identity : String) (revision : Int) (state : WorkState)
    (reason : String) (parentId : Option String) :
    Serves db (reportStop db now identity revision state reason parentId) := by
  unfold reportStop
  split
  · exact .refl db
  · rename_i parent _
    have hkey : ∀ id, (stopInput identity revision state reason parent now).sourceKey ≠
        signalKey id := by
      intro id
      simp only [stopInput, String.append_assoc]
      exact ne_signalKey (by decide) (by decide) _ id
    exact (Serves.of_mail (.insert _ hkey) (insertInput_waits db _)).trans
      (.of_mail (.of_eq rfl) rfl)

theorem stopWork_serves (row : WorkRow) (state : WorkState) (reason : String) :
    Serves db (stopWork db now row state reason) := by
  unfold stopWork
  dsimp only
  refine .trans ?_ (reportStop_serves _ now _ _ _ _ _)
  exact (stopOwnedExecution_serves db now row.id (some reason)).trans (.of_mail (.of_eq rfl) rfl)

theorem queueAgain_serves (row : WorkRow) : Serves db (queueAgain db now row) :=
  (cancelActiveWaits_serves db now row.id).trans (.of_mail (.of_eq rfl) rfl)

end

section

variable {db db' : Db} {now : Time}

theorem commitState_serves {lease : WorkLease} {identity : String} {state : WorkState}
    {revision : Option Int} {reason goal exitReason : Option String}
    {detail : Option RecoveryDetail} {row : WorkRow}
    (h : commitState db now lease identity state revision reason goal exitReason detail =
      .ok (db', row)) : Serves db db' := by
  obtain ⟨before, -, -, rfl, rfl⟩ := commitState_cases h
  exact (settle_serves db now lease identity _ reason goal detail).trans
    (reportResult_serves _ now _)

theorem manageWork_serves {identity : String} {revision : Int} {action : ManagementAction}
    {reason : Option String} {r : Int × WorkState}
    (h : manageWork db now identity revision action reason = .ok (db', r)) : Serves db db' := by
  simp only [manageWork, bind_eq_ok, expect_eq_ok, require_eq_ok] at h
  obtain ⟨-, -, row, -, -, -, -, -, h⟩ := h
  cases action with
  | cancel =>
    obtain ⟨rfl, -⟩ := Prod.mk.inj (pure_eq_ok.mp h)
    exact stopWork_serves db now row .cancelled _
  | fail =>
    obtain ⟨rfl, -⟩ := Prod.mk.inj (pure_eq_ok.mp h)
    exact stopWork_serves db now row .failed _
  | resume =>
    simp only [bind_eq_ok, pure_eq_ok] at h
    obtain ⟨-, -, h⟩ := h
    obtain ⟨rfl, -⟩ := Prod.mk.inj h
    exact queueAgain_serves db now row

theorem cancel_serves {lease : WorkLease} {workId : String} {b : Bool}
    (h : cancel db now lease workId = .ok (db', b)) : Serves db db' := by
  simp only [cancel, bind_eq_ok, pure_eq_ok] at h
  obtain ⟨-, -, h⟩ := h
  obtain ⟨rfl, -⟩ := Prod.mk.inj h
  refine .close (.of_eq rfl) (Table.get?_update _ _ _ (by intro; rfl)) (fun w hp => ?_)
    fun _ => ⟨rfl, rfl, .inl rfl⟩
  simp only [Bool.and_eq_true, beq_iff_eq] at hp
  exact hp.2

end

/-! Deliveries. -/

/-- A prepared row still tells what its wait holds, unless the wait has ended. -/
structure Holds (db : Db) (b : Binding) (mode : WaitMode) (deadline : Option Time)
    (conditions : List Condition) : Prop where
  stored : ∃ w, db.waits.get? b.id = some w ∧ w.workId = b.workId ∧
    (w.status = .active → w.progress = ⟨mode, deadline, conditions⟩)

namespace Holds

variable {db db' : Db} {b : Binding} {mode : WaitMode} {deadline : Option Time}
  {conditions : List Condition}

theorem kept (h : Holds db b mode deadline conditions)
    (hw : db'.waits.get? b.id = db.waits.get? b.id) : Holds db' b mode deadline conditions := by
  obtain ⟨w, hget, h⟩ := h.stored
  exact ⟨w, hw.trans hget, h⟩

/-- A signal over what the row tells, with the matches gathered since. -/
theorem deliver_serves (h : Holds db b mode deadline conditions) {o : Option Original}
    {cs : List Condition} {reason : SignalReason} {now : Time} {event : Option Int}
    (hgrows : List.Forall₂ Condition.Grows conditions cs)
    (hf : ∀ w : WaitRow, w.mode = mode → w.deadline = deadline → w.conditions = cs →
      Founded w reason now) : Serves db (deliver db b o cs reason now event).1 := by
  obtain ⟨w, hw, hwork, hact⟩ := h.stored
  refine Yuki.deliver_serves hw hwork (fun ha => ?_) fun ha => ?_
  · have hprog := hact ha
    simp only [WaitRow.progress, Progress.mk.injEq] at hprog
    rw [hprog.2.2]
    exact hgrows
  · have hprog := hact ha
    simp only [WaitRow.progress, Progress.mk.injEq] at hprog
    exact hf _ hprog.1 hprog.2.1 rfl

theorem update_serves (h : Holds db b mode deadline conditions) {cs : List Condition} (now : Time)
    (hgrows : List.Forall₂ Condition.Grows conditions cs) :
    Serves db (db.updateActive b.id fun w => { w with conditions := cs, updated := now }) := by
  obtain ⟨w, hw, -, hact⟩ := h.stored
  refine updateConditions_serves fun v hv ha => ?_
  obtain rfl := Option.some.inj (hw.symm.trans hv)
  have hprog := hact ha
  simp only [WaitRow.progress, Progress.mk.injEq] at hprog
  rw [hprog.2.2]
  exact hgrows

end Holds

theorem updateActive_other {db : Db} {id k : String} {f : WaitRow → WaitRow}
    (hf : ∀ w, (f w).id = w.id) (hk : k ≠ id) :
    (db.updateActive id f hf).waits.get? k = db.waits.get? k := by
  rw [updateActive, Table.get?_update]
  cases h : db.waits.get? k with
  | none => rfl
  | some w =>
    have hid := Table.get?_key h
    simp [hid, hk]

/-- A delivery touches its own wait only. -/
theorem deliver_other {db : Db} {b : Binding} {o : Option Original} {cs : List Condition}
    {reason : SignalReason} {now : Time} {event : Option Int} {k : String} (hk : k ≠ b.id) :
    (deliver db b o cs reason now event).1.waits.get? k = db.waits.get? k := by
  unfold deliver
  dsimp only
  split
  · exact updateActive_other _ hk
  split
  · rfl
  · simp only [deliverActive, wakeSignalled, insertInput_waits, endWait]
    exact updateActive_other _ hk

/-- A delivery ends its wait or changes nothing, so every row keeps telling what its wait holds. -/
theorem deliver_holds {db : Db} {b b' : Binding} {o : Option Original} {cs : List Condition}
    {reason : SignalReason} {now : Time} {event : Option Int} {mode : WaitMode}
    {deadline : Option Time} {conditions : List Condition}
    (h : Holds db b mode deadline conditions) :
    Holds (deliver db b' o cs reason now event).1 b mode deadline conditions := by
  by_cases hne : b.id = b'.id
  swap
  · exact h.kept (deliver_other hne)
  have hended {f : WaitRow → WaitRow} (hf : ∀ w, (f w).id = w.id)
      (hwork : ∀ w, (f w).workId = w.workId) (hend : ∀ w, (f w).status ≠ .active) :
      Holds (db.updateActive b'.id f hf) b mode deadline conditions := by
    obtain ⟨w, hw, hb, hact⟩ := h.stored
    have hid := Table.get?_key hw
    by_cases ha : w.status = .active
    · refine ⟨f w, ?_, (hwork w).trans hb, fun hfa => absurd hfa (hend w)⟩
      rw [updateActive, Table.get?_update, hw, Option.map_some, if_pos (by simp [hid, hne, ha])]
    · refine ⟨w, ?_, hb, fun hwa => absurd hwa ha⟩
      rw [updateActive, Table.get?_update, hw, Option.map_some, if_neg (by simp [ha])]
  unfold deliver
  dsimp only
  split
  · exact hended _ (fun _ => rfl) fun _ => by simp
  split
  · exact h
  · refine (hended (f := fun w => { w with
        status := endStatus reason, conditions := cs, updated := now, delivered := some now })
      (fun _ => rfl) (fun _ => rfl) fun _ => by cases reason <;> simp [endStatus]).kept ?_
    simp only [deliverActive, wakeSignalled, insertInput_waits, endWait]

/-- The prepared conditions of a callback are still those of its wait. -/
def Holding (p : PreparedWaitAction) (db : Db) : Prop :=
  ∀ b, p.binding = some b → ∃ mode deadline, Holds db b mode deadline p.conditions

/-- A signal for a run the prepared conditions name. -/
theorem signalExternalAction_serves {db : Db} {now : Time} {workId runId : String}
    {prepared : PreparedWaitAction} (h : Holding prepared db) :
    Serves db (signalExternalAction db now workId runId prepared) := by
  unfold signalExternalAction
  split
  · exact .refl db
  split
  · exact .refl db
  split
  · rename_i b hb
    split
    · rename_i hruns
      obtain ⟨mode, deadline, hb'⟩ := h b hb
      exact hb'.deliver_serves (List.forall₂_same.mpr fun c _ => .refl c)
        fun w _ _ hcs => ⟨runId, by rw [hcs]; exact hruns⟩
    · exact .refl db
  · exact .of_mail (.of_eq rfl) rfl

theorem signalExternalAction_holding {db : Db} {now : Time} {workId runId : String}
    {prepared other : PreparedWaitAction} (h : Holding other db) :
    Holding other (signalExternalAction db now workId runId prepared) := by
  intro b hb
  obtain ⟨mode, deadline, h⟩ := h b hb
  refine ⟨mode, deadline, ?_⟩
  unfold signalExternalAction
  split
  · exact h
  split
  · exact h
  split
  · split
    · exact deliver_holds h
    · exact h
  · exact h.kept rfl

/-- Signals of several runs over one prepared wait: after the first that fits, the wait has
ended, and the others find it so. -/
theorem signals_serves {db : Db} {now : Time} {workId : String} {prepared : PreparedWaitAction}
    (runs : List String) (h : Holding prepared db) :
    Serves db (runs.foldl (fun d run => signalExternalAction d now workId run prepared) db) := by
  induction runs generalizing db with
  | nil => exact .refl db
  | cons run runs ih =>
    exact (signalExternalAction_serves h).trans (ih (signalExternalAction_holding h))

/-! Prepared rows. -/

/-- The row still tells what its wait holds. -/
abbrev DueRow.holds (row : DueRow) (db : Db) : Prop :=
  Holds db row.binding row.mode row.deadline row.conditions

theorem dueRows_holds {db : Db} {p : WaitRow → Bool} {row : DueRow} (h : row ∈ db.dueRows p) :
    row.holds db := by
  obtain ⟨w, hw, rfl⟩ := List.mem_map.mp (List.mem_mergeSort.mp h)
  exact ⟨w, Table.mem_rows.mp (List.mem_of_mem_filter hw), rfl, fun _ => rfl⟩

theorem dueRows_nodup (db : Db) (p : WaitRow → Bool) :
    ((db.dueRows p).map fun row => row.binding.id).Nodup := by
  refine ((List.mergeSort_perm _ _).map _).nodup_iff.mpr ?_
  rw [List.map_map]
  exact (List.Sublist.map WaitRow.id List.filter_sublist).nodup db.waits.nodup

/-- Rows of different waits, each still telling what its wait holds, served one by one. -/
theorem fold_serves {σ : Type} (get : σ → Db) {f : σ → DueRow → σ} {rows : List DueRow} (s : σ)
    (hserves : ∀ s row, row.holds (get s) → Serves (get s) (get (f s row)))
    (hother : ∀ s row k, k ≠ row.binding.id →
      (get (f s row)).waits.get? k = (get s).waits.get? k)
    (hnodup : (rows.map fun row => row.binding.id).Nodup) (hholds : ∀ row ∈ rows, row.holds (get s)) :
    Serves (get s) (get (rows.foldl f s)) := by
  induction rows generalizing s with
  | nil => exact .refl _
  | cons row rows ih =>
    rw [List.map_cons, List.nodup_cons] at hnodup
    refine (hserves s row (hholds row (List.mem_cons_self ..))).trans (ih _ hnodup.2 ?_)
    intro other hmem
    refine (hholds other (List.mem_cons_of_mem _ hmem)).kept (hother s row _ fun he => ?_)
    exact hnodup.1 (he ▸ List.mem_map_of_mem hmem)

/-! Callbacks of external runs. -/

inductive CallbackKey
  | agent (eventId operationId : String)
  | permission (peerId eventId : String)

def CallbackKey.text : CallbackKey → String
  | .agent eventId operationId => "external-agent:" ++ eventId ++ ":" ++ operationId
  | .permission peerId eventId => "acp-permission:" ++ peerId ++ ":" ++ eventId

/-- A callback its transaction admits: the input, and the run it signals for, if any. -/
structure Callback where
  owner : WorkRow
  key : CallbackKey
  payload : Json
  runId : Option String
  prepared : PreparedWaitAction

def Callback.input (c : Callback) (now : Time) : InputRow where
  id := 0
  conversationId := c.owner.conversationId
  generation := c.owner.generation
  sourceKey := c.key.text
  workId := some c.owner.id
  kind := "control"
  payload := .doc c.payload
  created := now

def callback (now : Time) (db : Db) (c : Callback) : Db :=
  let inserted := (db.insertInput (c.input now)).1
  match c.runId with
  | none => inserted
  | some run => signalExternalAction inserted now c.owner.id run c.prepared

/-- The callbacks of one transaction, once it has proved every prepared wait current. -/
def callbacks (db : Db) (now : Time) (cs : List Callback) : Db :=
  if cs.all fun c => externalActionCurrent db c.owner.id c.prepared then cs.foldl (callback now) db
  else db

theorem CallbackKey.text_ne (k : CallbackKey) (id : String) : k.text ≠ signalKey id := by
  cases k with
  | agent eventId operationId =>
    show "external-agent:" ++ eventId ++ ":" ++ operationId ≠ signalKey id
    rw [String.append_assoc, String.append_assoc]
    exact ne_signalKey (by decide) (by decide) _ id
  | permission peerId eventId =>
    show "acp-permission:" ++ peerId ++ ":" ++ eventId ≠ signalKey id
    rw [String.append_assoc, String.append_assoc]
    exact ne_signalKey (by decide) (by decide) _ id

theorem callback_serves {db : Db} (now : Time) {c : Callback} (h : Holding c.prepared db) :
    Serves db (callback now db c) := by
  have hinserted : Serves db (db.insertInput (c.input now)).1 :=
    .of_mail (.insert _ c.key.text_ne) (insertInput_waits db _)
  have hkept : Holding c.prepared (db.insertInput (c.input now)).1 := fun b hb => by
    obtain ⟨mode, deadline, h⟩ := h b hb
    exact ⟨mode, deadline, h.kept (by rw [insertInput_waits])⟩
  unfold callback
  dsimp only
  split
  · exact hinserted
  · exact hinserted.trans (signalExternalAction_serves hkept)

theorem callback_holding {db : Db} (now : Time) {c : Callback} {p : PreparedWaitAction}
    (h : Holding p db) : Holding p (callback now db c) := by
  have hkept : Holding p (db.insertInput (c.input now)).1 := fun b hb => by
    obtain ⟨mode, deadline, h⟩ := h b hb
    exact ⟨mode, deadline, h.kept (by rw [insertInput_waits])⟩
  unfold callback
  dsimp only
  split
  · exact hkept
  · exact signalExternalAction_holding hkept

theorem prepareExternalAction_holding (db : Db) (workId : String) :
    Holding (prepareExternalAction db workId) db := by
  intro b hb
  unfold prepareExternalAction at hb ⊢
  split at hb
  · rename_i row hrow
    obtain rfl := Option.some.inj hb
    exact ⟨row.mode, row.deadline, dueRows_holds (List.mem_of_head? hrow)⟩
  · cases hb

theorem callbacks_serves (db : Db) (now : Time) (cs : List Callback) :
    Serves db (callbacks db now cs) := by
  have hfold (d : Db) (cs : List Callback) (h : ∀ c ∈ cs, Holding c.prepared d) :
      Serves d (cs.foldl (callback now) d) := by
    induction cs generalizing d with
    | nil => exact .refl d
    | cons c cs ih =>
      refine (callback_serves now (h c (List.mem_cons_self ..))).trans (ih _ fun c' hc' => ?_)
      exact callback_holding now (h c' (List.mem_cons_of_mem _ hc'))
  unfold callbacks
  split
  · rename_i hcurrent
    refine hfold db cs fun c hc => ?_
    have hc := List.all_eq_true.mp hcurrent c hc
    simp only [externalActionCurrent, beq_iff_eq] at hc
    exact hc ▸ prepareExternalAction_holding db c.owner.id
  · exact .refl db

/-! Registration. -/

theorem insertWait_stored {db db' : Db} {w : WaitRow} (h : insertWait db w = .ok db') :
    db'.waits.get? w.id = some w := by
  simp only [insertWait, bind_eq_ok, require_eq_ok, pure_eq_ok] at h
  obtain ⟨-, ⟨hfresh, -⟩, rfl⟩ := h
  exact Table.get?_insert_self (Table.get?_eq_none.mpr hfresh)

theorem setAcceptedControl_kept {db db' : Db} {now : Time} {lease : WorkLease} {identity : String}
    {control : Option Json} (h : setAcceptedControl db now lease identity control = .ok db') :
    db'.inputs = db.inputs ∧ db'.waits = db.waits := by
  simp only [setAcceptedControl, bind_eq_ok, pure_eq_ok] at h
  obtain ⟨-, -, rfl⟩ := h
  exact ⟨rfl, rfl⟩

theorem registerNew_serves {db db' : Db} {now : Time} {lease : WorkLease} {r : Registration}
    {w : WaitRow} (h : registerNew db now lease r w = .ok db') (hactive : w.status = .active) :
    Serves db db' := by
  simp only [registerNew, bind_eq_ok] at h
  obtain ⟨inserted, hins, h⟩ := h
  obtain ⟨decided, hkept, rfl⟩ : ∃ decided : Db,
      (decided.inputs = inserted.inputs ∧ decided.waits = inserted.waits) ∧
      db' = (pendingRuns decided r.workId).foldl (fun d run =>
        signalExternalAction d now r.workId run ⟨some w.binding, none, w.conditions⟩) decided := by
    split at h
    · exact ⟨inserted, ⟨rfl, rfl⟩, (Except.ok.inj h).symm⟩
    · simp only [bind_eq_ok, pure_eq_ok] at h
      obtain ⟨decided, hdec, rfl⟩ := h
      exact ⟨decided, setAcceptedControl_kept hdec, rfl⟩
  have hstored : Holds decided w.binding w.mode w.deadline w.conditions :=
    ⟨w, by rw [hkept.2]; exact insertWait_stored hins, rfl, fun _ => rfl⟩
  have hbefore : Serves db decided :=
    ((cancelActiveWaits_serves db now r.workId).trans (insertWait_serves hins hactive)).trans
      (.of_mail (.of_eq hkept.1) hkept.2)
  refine hbefore.trans (signals_serves _ fun b hb => ?_)
  obtain rfl := Option.some.inj hb
  exact ⟨w.mode, w.deadline, hstored⟩

theorem register_serves {timestamp : String → Option (Option Time)} {db db' : Db} {now : Time}
    {lease : WorkLease} {r : Registration} {fresh id : String}
    (h : register timestamp db now lease r fresh = .ok (db', id)) : Serves db db' := by
  simp only [register, bind_eq_ok] at h
  obtain ⟨mode, -, normalized, -, deadline, -, principal, -, -, -, row, -, -, -, -, -, -, -, h⟩ := h
  split at h
  · simp only [bind_eq_ok, pure_eq_ok] at h
    obtain ⟨-, -, -, -, h⟩ := h
    obtain ⟨rfl, -⟩ := Prod.mk.inj h
    exact .refl db
  · simp only [bind_eq_ok, pure_eq_ok] at h
    obtain ⟨registered, hr, h⟩ := h
    obtain ⟨rfl, -⟩ := Prod.mk.inj h
    exact registerNew_serves hr rfl

/-! Events. -/

theorem dropText_grows (c : Condition) : c.Grows c.dropText :=
  ⟨rfl, fun m hm => .inr (by simp [Condition.dropText, hm])⟩

theorem meetEvent_grows (kind : EventKind) (e : EventRow) (now : Time) (c : Condition) :
    c.Grows (meetEvent kind e now c) := by
  unfold meetEvent
  split
  · rename_i hmeets
    refine ⟨rfl, fun m hm => ?_⟩
    simp [eventMeets, Condition.open_, Condition.dropText, hm] at hmeets
  · exact dropText_grows c

theorem applyToWait_serves (kind : EventKind) (e : EventRow) (now : Time) (s : EventEffect)
    (row : DueRow) (h : row.holds s.db) : Serves s.db (applyToWait kind e now s row).db := by
  have hgrows : List.Forall₂ Condition.Grows row.conditions
      (row.conditions.map (meetEvent kind e now)) :=
    List.forall₂_map_right_iff.mpr (List.forall₂_same.mpr fun c _ => meetEvent_grows kind e now c)
  unfold applyToWait
  split
  · exact .refl s.db
  dsimp only
  split
  · rename_i hmet
    exact h.deliver_serves hgrows fun w hm _ hc => by simpa only [Founded, hm, hc] using hmet
  · exact h.update_serves now hgrows

theorem applyToWait_other (kind : EventKind) (e : EventRow) (now : Time) (s : EventEffect)
    (row : DueRow) (k : String) (hk : k ≠ row.binding.id) :
    (applyToWait kind e now s row).db.waits.get? k = s.db.waits.get? k := by
  unfold applyToWait
  split
  · rfl
  dsimp only
  split
  · exact deliver_other hk
  · exact updateActive_other _ hk

theorem matchRound_serves {db db' : Db} {now : Time} {eventId : Int} {kind : EventKind}
    {conversationId : String} {prepared : List DueRow} {hook : Except Err Unit}
    {r : Option (Option Nat)}
    (h : matchRound db now eventId kind conversationId prepared hook = .ok (db', r)) :
    Serves db db' := by
  unfold matchRound applyCurrent at h
  split at h
  swap
  · obtain ⟨rfl, -⟩ := Prod.mk.inj (Except.ok.inj h)
    exact .refl db
  split at h
  swap
  · obtain ⟨rfl, -⟩ := Prod.mk.inj (Except.ok.inj h)
    exact .refl db
  rename_i hcurrent
  obtain ⟨⟨d, m⟩, ha, h⟩ := map_eq_ok.mp h
  obtain ⟨rfl, -⟩ := Prod.mk.inj h
  unfold applyEvent at ha
  split at ha
  · obtain ⟨rfl, -⟩ := Prod.mk.inj (Except.ok.inj ha)
    exact .refl db
  split at ha
  · obtain ⟨rfl, -⟩ := Prod.mk.inj (Except.ok.inj ha)
    exact .refl db
  split at ha
  · obtain ⟨rfl, -⟩ := Prod.mk.inj (Except.ok.inj ha)
    exact .refl db
  rename_i e _ _ _ _ _
  simp only [bind_eq_ok, pure_eq_ok] at ha
  obtain ⟨-, -, ha⟩ := ha
  obtain ⟨rfl, -⟩ := Prod.mk.inj ha
  -- the writer has proved the prepared rows to be those of the table
  simp only [eventWaitsCurrent, beq_iff_eq] at hcurrent
  subst hcurrent
  refine fold_serves EventEffect.db ⟨db, none, false⟩ (applyToWait_serves kind e now)
    (applyToWait_other kind e now) ?_ fun row hrow => ?_
  · exact (List.Sublist.map _ List.filter_sublist).nodup (dueRows_nodup db _)
  · exact dueRows_holds (List.mem_of_mem_filter hrow)

/-! Polls. -/

theorem observeCondition_grows (workId : String) (states : List ((String × String) × RunState))
    (now : Time) (c : Condition) : c.Grows (observeCondition workId states now c) := by
  unfold observeCondition
  split
  · exact .refl c
  · rename_i hnone _
    split
    · exact ⟨rfl, fun m hm => by simp [hnone] at hm⟩
    · exact .refl c
  · rename_i hnone _
    split
    · split
      · exact ⟨rfl, fun m hm => by simp [hnone] at hm⟩
      · exact .refl c
    · exact .refl c
  · exact .refl c

theorem observed_grows (workId : String) (states : List ((String × String) × RunState)) (now : Time)
    (cs : List Condition) : List.Forall₂ Condition.Grows cs
      ((cs.map Condition.dropText).map (observeCondition workId states now)) := by
  rw [List.map_map]
  exact List.forall₂_map_right_iff.mpr (List.forall₂_same.mpr fun c _ =>
    (dropText_grows c).trans (observeCondition_grows workId states now _))

/-- What a poll observes grows from the stored conditions, and a signal is founded on it. -/
theorem observeDue_cases {row : DueRow} {conditions : List Condition}
    {states : List ((String × String) × RunState)} {now : Time} {o : Observation}
    (h : observeDue row conditions states now = some o) :
    match o with
    | .invalidated => True
    | .partially cs => List.Forall₂ Condition.Grows conditions cs
    | .due cs reason => List.Forall₂ Condition.Grows conditions cs ∧
        ((reason = .signal ∧ row.mode.met cs = true) ∨
          (reason = .deadline ∧ expiredAt row.deadline now = true)) := by
  have hgrows := observed_grows row.binding.workId states now conditions
  unfold observeDue at h
  split at h
  · obtain rfl := Option.some.inj h
    trivial
  dsimp only at h
  split at h
  · rename_i hmet
    obtain rfl := Option.some.inj h
    exact ⟨hgrows, .inl ⟨rfl, hmet⟩⟩
  split at h
  · rename_i hexp
    obtain rfl := Option.some.inj h
    exact ⟨hgrows, .inr ⟨rfl, hexp⟩⟩
  split at h
  · obtain rfl := Option.some.inj h
    exact hgrows
  · cases h

theorem preparedFor_conditions {p : PreparedDue} {row before : DueRow}
    (h : preparedFor p row = some before) : before.conditions = row.conditions := by
  obtain ⟨-, hsame⟩ := Option.filter_eq_some_iff.mp h
  simp only [sameFields, Bool.and_eq_true, beq_iff_eq] at hsame
  exact hsame.1.2.symm

theorem pollWait_serves (p : PreparedDue) (now : Time) (s : Db × Nat) (row : DueRow)
    (h : row.holds s.1) : Serves s.1 (pollWait p now s row).1 := by
  unfold pollWait
  split
  · exact .refl s.1
  rename_i before hbefore
  rw [preparedFor_conditions hbefore]
  split
  · exact .refl s.1
  · exact invalidate_serves s.1 now _
  · rename_i cs hobs
    exact h.update_serves now (observeDue_cases hobs)
  · rename_i cs reason hobs
    obtain ⟨hgrows, hreason⟩ := observeDue_cases hobs
    refine h.deliver_serves hgrows fun w hm hd hc => ?_
    rcases hreason with ⟨rfl, hmet⟩ | ⟨rfl, hexp⟩
    · simpa only [Founded, hm, hc] using hmet
    · simpa only [Founded, hd] using hexp

theorem pollWait_other (p : PreparedDue) (now : Time) (s : Db × Nat) (row : DueRow) (k : String)
    (hk : k ≠ row.binding.id) : (pollWait p now s row).1.waits.get? k = s.1.waits.get? k := by
  unfold pollWait
  split
  · rfl
  split
  · rfl
  · exact updateActive_other _ hk
  · exact updateActive_other _ hk
  · exact deliver_other hk

theorem deliverPrepared_serves (db : Db) (now : Time) (p : PreparedDue) :
    Serves db (deliverPrepared db now p).1 := by
  unfold deliverPrepared
  split
  · exact .refl db
  split
  · exact .refl db
  · exact fold_serves Prod.fst (db, 0) (pollWait_serves p now) (pollWait_other p now)
      (dueRows_nodup db _) fun _ => dueRows_holds

/-! Runs. -/

/-- The writers of waits and of their signals. -/
inductive WaitOp
  | register (timestamp : String → Option (Option Time)) (lease : WorkLease) (r : Registration)
      (fresh : String)
  | cancel (lease : WorkLease) (workId : String)
  | matchRound (eventId : Int) (kind : EventKind) (conversationId : String)
      (prepared : List DueRow) (hook : Except Err Unit)
  | deliverDue (views : List (Db × Db)) (observedAt : Time)
  | callbacks (cs : List Callback)
  | commitState (lease : WorkLease) (identity : String) (state : WorkState)
      (revision : Option Int) (reason goal exitReason : Option String)
      (detail : Option RecoveryDetail)
  | manageWork (identity : String) (revision : Int) (action : ManagementAction)
      (reason : Option String)
  | stopOwnedExecution (identity : String) (reason : Option String)

namespace WaitOp

/-- The database a writer commits at time `now`. -/
def exec (db : Db) (now : Time) : WaitOp → Except Err Db
  | register timestamp lease r fresh =>
    (WorkWaitRepository.register timestamp db now lease r fresh).map Prod.fst
  | cancel lease workId => (WorkWaitRepository.cancel db now lease workId).map Prod.fst
  | matchRound eventId kind conversationId prepared hook =>
    (WorkWaitRepository.matchRound db now eventId kind conversationId prepared hook).map Prod.fst
  | deliverDue views observedAt => .ok (WorkWaitRepository.deliverDue views db observedAt now).1
  | callbacks cs => .ok (Yuki.callbacks db now cs)
  | commitState lease identity state revision reason goal exitReason detail =>
    (WorkRepository.commitState db now lease identity state revision reason goal exitReason
      detail).map Prod.fst
  | manageWork identity revision action reason =>
    (Yuki.manageWork db now identity revision action reason).map Prod.fst
  | stopOwnedExecution identity reason => .ok (Yuki.stopOwnedExecution db now identity reason)

theorem serves {db db' : Db} {now : Time} {op : WaitOp} (h : op.exec db now = .ok db') :
    Serves db db' := by
  cases op with
  | register =>
    obtain ⟨r, hr, rfl⟩ := map_eq_ok.mp h
    exact register_serves hr
  | cancel =>
    obtain ⟨r, hr, rfl⟩ := map_eq_ok.mp h
    exact cancel_serves hr
  | matchRound =>
    obtain ⟨r, hr, rfl⟩ := map_eq_ok.mp h
    exact matchRound_serves hr
  | deliverDue =>
    obtain rfl := Except.ok.inj h
    exact deliverPrepared_serves db now _
  | callbacks =>
    obtain rfl := Except.ok.inj h
    exact callbacks_serves db now _
  | commitState =>
    obtain ⟨r, hr, rfl⟩ := map_eq_ok.mp h
    exact commitState_serves hr
  | manageWork =>
    obtain ⟨r, hr, rfl⟩ := map_eq_ok.mp h
    exact manageWork_serves hr
  | stopOwnedExecution =>
    obtain rfl := Except.ok.inj h
    exact stopOwnedExecution_serves db now _ _

end WaitOp

/-- A transaction of one writer, or one that neither touches a wait nor sends a signal. -/
inductive WaitStep : Db → Option (WaitOp × Time) → Db → Prop
  | commit {db db' : Db} {op : WaitOp} {now : Time} :
      op.exec db now = .ok db' → WaitStep db (some (op, now)) db'
  | rollback {db : Db} {op : WaitOp} {now : Time} {e : Err} :
      op.exec db now = .error e → WaitStep db (some (op, now)) db
  | other {db db' : Db} : SameMail db db' → db'.waits = db.waits → WaitStep db none db'

theorem WaitStep.serves {db db' : Db} {e : Option (WaitOp × Time)} (h : WaitStep db e db') :
    Serves db db' := by
  cases h with
  | commit h => exact WaitOp.serves h
  | rollback => exact .refl db
  | other hmail hwaits => exact .of_mail hmail hwaits

/-- Waits and signals agree: one active wait a Work, one founded signal an ended wait. -/
structure Db.Serving (db : Db) : Prop where
  exclusive : ∀ v ∈ db.waits.rows, ∀ w ∈ db.waits.rows, v.workId = w.workId →
    v.status = .active → w.status = .active → v = w
  signals : ∀ id, db.signalsOf id = if (db.waits.get? id).any WaitRow.ended then 1 else 0
  signalled : ∀ id, (db.waits.get? id).any WaitRow.ended = true → db.Signalled id

theorem Db.honest_iff (db : Db) :
    db.Honest ↔ ∀ id, db.signalsOf id = if (db.waits.get? id).any WaitRow.ended then 1 else 0 := by
  refine forall_congr' fun id => ?_
  rw [fired_board]
  cases (db.waits.get? id).any WaitRow.ended <;> exact Iff.rfl

theorem Db.armed_iff {db : Db} {id workId : String} :
    (∃ p, db.board.phase id = some (workId, .armed p)) ↔
      ∃ w, db.waits.get? id = some w ∧ w.workId = workId ∧ w.status = .active := by
  simp only [Db.board, Option.map_eq_some_iff, Prod.mk.injEq]
  constructor
  · rintro ⟨p, w, hw, hwork, hp⟩
    refine ⟨w, hw, hwork, ?_⟩
    unfold WaitRow.phase at hp
    split at hp
    · assumption
    · simp at hp
  · rintro ⟨w, hw, hwork, hs⟩
    exact ⟨w.progress, w, hw, hwork, by rw [WaitRow.phase, if_pos hs]⟩

theorem Db.exclusive_iff (db : Db) :
    db.board.Exclusive ↔ ∀ v ∈ db.waits.rows, ∀ w ∈ db.waits.rows, v.workId = w.workId →
      v.status = .active → w.status = .active → v = w := by
  constructor
  · intro h v hv w hw hwork hvs hws
    have hv := Table.mem_rows.mp hv
    have hw := Table.mem_rows.mp hw
    obtain ⟨p, hp⟩ := armed_iff.mpr ⟨v, hv, hwork, hvs⟩
    obtain ⟨q, hq⟩ := armed_iff.mpr ⟨w, hw, rfl, hws⟩
    rw [h _ _ _ _ _ hp hq, hw] at hv
    exact (Option.some.inj hv).symm
  · intro h j k o p q hj hk
    obtain ⟨v, hv, rfl, hvs⟩ := armed_iff.mp ⟨p, hj⟩
    obtain ⟨w, hw, hwork, hws⟩ := armed_iff.mp ⟨q, hk⟩
    rw [← Table.get?_key hv, ← Table.get?_key hw,
      h v (Table.get?_mem hv) w (Table.get?_mem hw) hwork.symm hvs hws]

theorem Serves.serving {db db' : Db} (h : Serves db db') (hs : db.Serving) : db'.Serving := by
  have hhonest : db.Honest := db.honest_iff.mpr hs.signals
  have hmoves := h.moves hhonest
  refine ⟨db'.exclusive_iff.mp (hmoves.exclusive (db.exclusive_iff.mpr hs.exclusive)),
    db'.honest_iff.mp (hmoves.honest hhonest), fun id he => ?_⟩
  by_cases hb : (db.waits.get? id).any WaitRow.ended = true
  · exact h.signalled_kept hhonest (hs.signalled id hb)
  · exact h.signalled hhonest id (by simpa using hb) he

/-- An active wait keeps its matches, through its end included. -/
theorem Serves.grows {db db' : Db} (h : Serves db db') (hh : db.Honest) {id : String}
    {v w : WaitRow} (hv : db.waits.get? id = some v) (hw : db'.waits.get? id = some w)
    (hs : v.status = .active) : List.Forall₂ Condition.Grows v.conditions w.conditions := by
  have hpv : db.board.phase id = some (v.workId, .armed v.progress) := by
    simp [Db.board, hv, WaitRow.phase, hs]
  by_cases hws : w.status = .active
  · have hpw : db'.board.phase id = some (w.workId, .armed w.progress) := by
      simp [Db.board, hw, WaitRow.phase, hws]
    obtain ⟨q, hq, hle⟩ := (h.moves hh).grown hpv hpw
    obtain rfl := Phase.armed.inj hq
    exact hle.2.2
  · have hpw : db'.board.phase id = some (w.workId, .closed ⟨w.status, w.progress⟩) := by
      simp [Db.board, hw, WaitRow.phase, hws]
    exact ((h.moves hh).gathered hpv hpw).2.2

/-- In every run of the writers: a Work has at most one active wait; a wait that has ended keeps
its status; the mailbox holds the signal of a wait once if the wait ended delivered or expired,
and else not; an active wait keeps its matches, through its end included; and the signal of an
ended wait rests on met conditions, a passed deadline, or a run that called back. -/
theorem one_shot_waits {db mid db' : Db} {es es' : List (Option (WaitOp × Time))}
    (h : Run WaitStep db es mid) (h' : Run WaitStep mid es' db') (hs : db.Serving) :
    (∀ v ∈ db'.waits.rows, ∀ w ∈ db'.waits.rows, v.workId = w.workId →
      v.status = .active → w.status = .active → v = w) ∧
    (∀ id v, mid.waits.get? id = some v → v.status ≠ .active →
      ∃ w, db'.waits.get? id = some w ∧ w.status = v.status) ∧
    (∀ id, (db'.inputs.rows.countP fun i => i.sourceKey == "wait:" ++ id) =
      if ∃ w, db'.waits.get? id = some w ∧ (w.status = .delivered ∨ w.status = .expired) then 1
      else 0) ∧
    (∀ id v, mid.waits.get? id = some v → v.status = .active →
      ∃ w, db'.waits.get? id = some w ∧
        List.Forall₂ Condition.Grows v.conditions w.conditions) ∧
    ∀ id w, db'.waits.get? id = some w → (w.status = .delivered ∨ w.status = .expired) →
      db'.Signalled id := by
  have hstep : ∀ s a t, s.Serving → WaitStep s a t → t.Serving ∧ Serves s t :=
    fun s a t hs hh => ⟨hh.serves.serving hs, hh.serves⟩
  have hmid : mid.Serving := h.invariant (fun s a t hs hh => (hstep s a t hs hh).1) hs
  have hserves : Serves mid db' := h'.rel .refl Serves.trans hstep hmid
  have hend := hserves.serving hmid
  have hhonest : mid.Honest := mid.honest_iff.mpr hmid.signals
  have hended : ∀ id, (db'.waits.get? id).any WaitRow.ended = true ↔
      ∃ w, db'.waits.get? id = some w ∧ (w.status = .delivered ∨ w.status = .expired) := by
    intro id
    simp only [Option.any_eq_true, WaitRow.ended, Bool.or_eq_true, beq_iff_eq]
  refine ⟨hend.exclusive, fun id v hv hne => ?_, fun id => ?_, fun id v hv ha => ?_,
    fun id w hw he => hend.signalled id ((hended id).mpr ⟨w, hw, he⟩)⟩
  · obtain ⟨w, hw, -, hstatus, -⟩ := hserves.ended hhonest hv hne
    exact ⟨w, hw, hstatus⟩
  · exact (hend.signals id).trans (if_congr (hended id) rfl rfl)
  · have hpv : mid.board.phase id = some (v.workId, v.phase) := by simp [Db.board, hv]
    obtain ⟨b, hb, -⟩ := (hserves.moves hhonest).leads id _ _ hpv
    simp only [Db.board, Option.map_eq_some_iff] at hb
    obtain ⟨w, hw, -⟩ := hb
    exact ⟨w, hw, hserves.grows hhonest hv hw ha⟩

/-- A Work that waits for ten o'clock, or for two days at most. -/
def waitingWork : WorkRow :=
  { id := "w", parentWorkId := none, conversationId := "c", generation := 1,
    sourceKey := "event:1", sourceJson := .obj [("principal_kind", .str "self")], goal := "remind",
    state := .waitingExternal, created := 0, updated := 0 }

def armedWait : WaitRow :=
  { id := "v", workId := "w", conversationId := "c", generation := 1, principalKind := "self",
    principalId := "self", callKey := "k", requestJson := .obj [], mode := .any,
    conditions := [⟨.timeDue 10, none⟩], status := .active, deadline := some 48, created := 0,
    updated := 0 }

def waitingDb : Db :=
  { works := ⟨[waitingWork], by decide⟩
    waits := ⟨[armedWait], by decide⟩
    conversations := ⟨[{ id := "c", generation := 1 }], List.nodup_singleton "c"⟩ }

theorem waitingDb_serving : waitingDb.Serving where
  exclusive v hv w hw _ _ _ := by
    rw [List.mem_singleton.mp hv, List.mem_singleton.mp hw]
  signals id := by
    have hnone : (waitingDb.waits.get? id).any WaitRow.ended = false := by
      cases h : waitingDb.waits.get? id with
      | none => rfl
      | some w =>
        obtain rfl := List.mem_singleton.mp (Table.get?_mem h)
        rfl
    rw [hnone]
    rfl
  signalled id h := by
    cases hw : waitingDb.waits.get? id with
    | none => simp [hw] at h
    | some w =>
      obtain rfl := List.mem_singleton.mp (Table.get?_mem hw)
      simp [hw, WaitRow.ended, armedWait] at h

/-- Two polls at ten o'clock leave one signal. -/
theorem one_shot_waits_polled :
    let polled := (deliverDue [(waitingDb, waitingDb)] waitingDb 10 10).1
    let again := (deliverDue [(waitingDb, waitingDb)] polled 10 11).1
    (again.inputs.rows.countP fun i => i.sourceKey == "wait:" ++ "v") = 1 := by
  intro polled again
  have hended : ∃ w, again.waits.get? "v" = some w ∧
      (w.status = .delivered ∨ w.status = .expired) := by
    have hstatus : (again.waits.get? "v").map WaitRow.status = some .delivered := by
      decide +kernel
    obtain ⟨w, hw, hs⟩ := Option.map_eq_some_iff.mp hstatus
    exact ⟨w, hw, .inl hs⟩
  have hpoll (d : Db) (now : Time) : WaitStep d
      (some (.deliverDue [(waitingDb, waitingDb)] 10, now))
      (deliverDue [(waitingDb, waitingDb)] d 10 now).1 := .commit rfl
  have h := (one_shot_waits (.single (hpoll waitingDb 10)) (.single (hpoll polled 11))
    waitingDb_serving).2.2.1 "v"
  rwa [if_pos hended] at h

end Yuki

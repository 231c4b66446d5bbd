import Yuki.Lib.Transition
import Yuki.Runtime.Polling

/-! Wakeups of a Work that is parked while an input is prepared: none is lost,
whatever the order of arrivals, preparations, settlements and deliveries. -/

namespace Yuki

open Db WorkRepository WorkWaitRepository

namespace Db

/-- The Work waits for the preparation of an input. -/
def parked (db : Db) (id : String) : Prop :=
  ∃ w, db.works.get? id = some w ∧ w.state = .waitingExternal ∧
    w.reason = some "work_input_preparing"

/-- Some pending input of the Work is not ready. -/
def preparing (db : Db) (id : String) : Prop :=
  ∃ i ∈ db.inputs.rows, i.workId = some id ∧ i.preparing = true

end Db

/-- A parked Work has an input in preparation, and an attempt holds only ready inputs. -/
structure Awake (id : String) (db : Db) : Prop where
  staged : ∀ i ∈ db.inputs.rows, i.workId = some id → i.state = .staged → i.ready = true
  parked : db.parked id → db.preparing id

/-- A change that leaves the mailbox rows of a Work alone, adds pending ones, and does not
park the Work. -/
structure Eased (id : String) (db db' : Db) : Prop where
  kept : ∀ i ∈ db.inputs.rows, i.workId = some id → i ∈ db'.inputs.rows
  arrived : ∀ i ∈ db'.inputs.rows, i.workId = some id → i ∈ db.inputs.rows ∨ i.state = .pending
  parked : db'.parked id → db.parked id

namespace Eased

variable {id : String} {db db' db'' : Db}

theorem awake (h : Eased id db db') (ha : Awake id db) : Awake id db' where
  staged i hi hw hs := by
    rcases h.arrived i hi hw with hi | hp
    · exact ha.staged i hi hw hs
    · simp [hs] at hp
  parked hp := by
    obtain ⟨i, hi, hw, hq⟩ := ha.parked (h.parked hp)
    exact ⟨i, h.kept i hi hw, hw, hq⟩

theorem trans (h : Eased id db db') (h' : Eased id db' db'') : Eased id db db'' where
  kept i hi hw := h'.kept i (h.kept i hi hw) hw
  arrived i hi hw := by
    rcases h'.arrived i hi hw with hi | hp
    · exact h.arrived i hi hw
    · exact .inr hp
  parked hp := h.parked (h'.parked hp)

theorem of_eq (hi : db'.inputs = db.inputs) (hw : db'.works = db.works) : Eased id db db' where
  kept i h _ := by rw [hi]; exact h
  arrived i h _ := .inl (by rw [← hi]; exact h)
  parked := by
    rintro ⟨w, hg, h⟩
    exact ⟨w, by rw [← hw]; exact hg, h⟩

theorem refl (db : Db) : Eased id db db :=
  .of_eq rfl rfl

theorem insert (db : Db) (r : InputRow) (hr : r.state = .pending) :
    Eased id db (db.insertInput r).1 where
  kept i hi _ := by
    rcases insertInput_rows db r with ⟨h, -⟩ | ⟨h, -⟩
    · rw [h]; exact hi
    · rw [h]; exact List.mem_append_left _ hi
  arrived i hi _ := by
    rcases insertInput_rows db r with ⟨h, -⟩ | ⟨h, -⟩
    · rw [h] at hi; exact .inl hi
    · rw [h, List.mem_append, List.mem_singleton] at hi
      rcases hi with hi | rfl
      · exact .inl hi
      · exact .inr hr
  parked := by
    rintro ⟨w, hg, h⟩
    exact ⟨w, by rw [← insertInput_works db r]; exact hg, h⟩

/-- An update of Works that moves none of them to an external wait. -/
theorem works {p : WorkRow → Bool} {f : WorkRow → WorkRow} (hi : db'.inputs = db.inputs)
    (hw : ∀ k, db'.works.get? k = (db.works.get? k).map fun w => if p w = true then f w else w)
    (h : ∀ w, (f w).state = .waitingExternal → w.state = .waitingExternal ∧
      (f w).reason = w.reason) : Eased id db db' where
  kept i h _ := by rw [hi]; exact h
  arrived i h _ := .inl (by rw [← hi]; exact h)
  parked := by
    rintro ⟨w, hg, hs, hr⟩
    rw [hw, Option.map_eq_some_iff] at hg
    obtain ⟨v, hv, rfl⟩ := hg
    by_cases hp : p v = true
    · rw [if_pos hp] at hs hr
      exact ⟨v, hv, (h v hs).1, (h v hs).2.symm.trans hr⟩
    · rw [if_neg hp] at hs hr
      exact ⟨v, hv, hs, hr⟩

/-- The Works queued by a wakeup. -/
theorem queued {p : WorkRow → Bool} {f : WorkRow → WorkRow} (hi : db'.inputs = db.inputs)
    (hw : ∀ k, db'.works.get? k = (db.works.get? k).map fun w => if p w = true then f w else w)
    (h : ∀ w, (f w).state = .queued) : Eased id db db' :=
  .works hi hw fun w hs => by simp [h] at hs

/-- A fold of such changes. -/
theorem foldl {α : Type} {f : Db → α → Db} (h : ∀ d a, Eased id d (f d a)) (xs : List α) (d : Db) :
    Eased id d (xs.foldl f d) := by
  induction xs generalizing d with
  | nil => exact .refl d
  | cons x xs ih => exact (h d x).trans (ih (f d x))

end Eased

section

variable (id : String)

theorem wakeWaiting_eased (db : Db) (now : Time) (p : WorkRow → Bool) :
    Eased id db (db.wakeWaiting now p) :=
  .queued rfl (Table.get?_update _ _ _ (by intro; rfl)) fun _ => rfl

theorem explicitResume_eased {db db' : Db} {now : Time} {a : Enqueued}
    (h : explicitResume db now a = .ok db') : Eased id db db' := by
  simp only [explicitResume, bind_eq_ok, expect_eq_ok, require_eq_ok, pure_eq_ok] at h
  obtain ⟨-, -, -, -, rfl⟩ := h
  exact .queued rfl (Table.get?_update _ _ _ (by intro; rfl)) fun _ => rfl

theorem enqueue_eased {seen : Option Db} {db db' : Db} {now : Time} {processId : String}
    {a : Enqueued} {n : Nat} (h : enqueue seen db now processId a = .ok (db', n)) :
    Eased id db db' := by
  simp only [enqueue, bind_eq_ok] at h
  obtain ⟨-, -, h⟩ := h
  split at h
  · simp only [bind_eq_ok, pure_eq_ok] at h
    obtain ⟨-, -, h⟩ := h
    obtain ⟨rfl, -⟩ := Prod.mk.inj h
    exact .refl db
  · simp only [bind_eq_ok, expect_eq_ok, admitInput, onlyIf_eq_ok, pure_eq_ok] at h
    obtain ⟨-, -, row, -, -, -, -, -, resumed, hres, h⟩ := h
    obtain ⟨rfl, -⟩ := Prod.mk.inj h
    refine (Eased.insert db (a.row now processId) rfl).trans ?_
    rcases hres with ⟨-, hres⟩ | ⟨-, rfl⟩
    · exact explicitResume_eased id hres
    · exact .refl _

theorem matchUserReply_eased (db : Db) (now : Time) (processId : String) (eventId : Int) :
    Eased id db (matchUserReply db now processId eventId).1 := by
  unfold matchUserReply
  split
  · exact .refl db
  · exact .insert db _ rfl

theorem deliver_eased (db : Db) (b : Binding) (o : Option Original) (cs : List Condition)
    (reason : SignalReason) (now : Time) (event : Option Int) :
    Eased id db (deliver db b o cs reason now event).1 := by
  unfold deliver
  dsimp only
  split
  · exact .of_eq rfl rfl
  split
  · exact .refl db
  · have hended : Eased id db (endWait db now b.id cs reason) := .of_eq rfl rfl
    exact (hended.trans (.insert _ (signalInput b cs reason now event) rfl)).trans
      (.queued rfl (Table.get?_update _ _ _ (by intro; rfl)) fun _ => rfl)

theorem signalExternalAction_eased (db : Db) (now : Time) (workId runId : String)
    (prepared : PreparedWaitAction) :
    Eased id db (signalExternalAction db now workId runId prepared) := by
  unfold signalExternalAction
  split
  · exact .refl db
  split
  · exact .refl db
  split
  · split
    · exact deliver_eased id ..
    · exact .refl db
  · exact .queued rfl (Table.get?_update _ _ _ (by intro; rfl)) fun _ => rfl

theorem applyToWait_eased (kind : EventKind) (e : EventRow) (now : Time) (s : EventEffect)
    (row : DueRow) : Eased id s.db (applyToWait kind e now s row).db := by
  unfold applyToWait
  split
  · exact .refl s.db
  dsimp only
  split
  · exact deliver_eased id ..
  · exact .of_eq rfl rfl

theorem applyEvent_eased {db db' : Db} {now : Time} {eventId : Int} {kind : EventKind}
    {prepared : List DueRow} {hook : Except Err Unit} {r : Option Nat}
    (h : applyEvent db now eventId kind prepared hook = .ok (db', r)) : Eased id db db' := by
  have hfold (e : EventRow) (rows : List DueRow) (s : EventEffect) :
      Eased id s.db (rows.foldl (applyToWait kind e now) s).db := by
    induction rows generalizing s with
    | nil => exact .refl s.db
    | cons row rows ih => exact (applyToWait_eased id kind e now s row).trans (ih _)
  unfold applyEvent at h
  split at h
  · obtain ⟨rfl, -⟩ := Prod.mk.inj (Except.ok.inj h)
    exact .refl db
  split at h
  · obtain ⟨rfl, -⟩ := Prod.mk.inj (Except.ok.inj h)
    exact .refl db
  split at h
  · obtain ⟨rfl, -⟩ := Prod.mk.inj (Except.ok.inj h)
    exact .refl db
  · simp only [bind_eq_ok, pure_eq_ok] at h
    obtain ⟨-, -, h⟩ := h
    obtain ⟨rfl, -⟩ := Prod.mk.inj h
    exact hfold _ _ ⟨db, none, false⟩

theorem matchRound_eased {db db' : Db} {now : Time} {eventId : Int} {kind : EventKind}
    {conversationId : String} {prepared : List DueRow} {hook : Except Err Unit}
    {r : Option (Option Nat)}
    (h : matchRound db now eventId kind conversationId prepared hook = .ok (db', r)) :
    Eased id db db' := by
  unfold matchRound applyCurrent at h
  split at h
  · split at h
    · obtain ⟨⟨d, m⟩, ha, h⟩ := map_eq_ok.mp h
      obtain ⟨rfl, -⟩ := Prod.mk.inj h
      exact applyEvent_eased id ha
    · obtain ⟨rfl, -⟩ := Prod.mk.inj (Except.ok.inj h)
      exact .refl db
  · obtain ⟨rfl, -⟩ := Prod.mk.inj (Except.ok.inj h)
    exact .refl db

theorem pollWait_eased (p : PreparedDue) (now : Time) (s : Db × Nat) (row : DueRow) :
    Eased id s.1 (pollWait p now s row).1 := by
  unfold pollWait
  split
  · exact .refl s.1
  split
  · exact .refl s.1
  · exact .of_eq rfl rfl
  · exact .of_eq rfl rfl
  · exact deliver_eased id ..

theorem deliverDue_eased (views : List (Db × Db)) (db : Db) (observedAt now : Time) :
    Eased id db (deliverDue views db observedAt now).1 := by
  have hfold (p : PreparedDue) (rows : List DueRow) (s : Db × Nat) :
      Eased id s.1 (rows.foldl (pollWait p now) s).1 := by
    induction rows generalizing s with
    | nil => exact .refl s.1
    | cons row rows ih => exact (pollWait_eased id p now s row).trans (ih _)
  unfold deliverDue deliverPrepared
  split
  · exact .refl db
  split
  · exact .refl db
  · exact hfold _ _ (db, 0)

end

/-! Preparation and discard. -/

section

variable {id : String} {db db' : Db} {now : Time}

/-- One row of the mailbox changes, and the Work it belongs to is no longer parked. -/
theorem Awake.settled {changed : InputRow} {f : InputRow → InputRow} (ha : Awake id db)
    (hc : changed ∈ db.inputs.rows)
    (hrows : db'.inputs.rows = db.inputs.rows.map fun i => if i.id = changed.id then f i else i)
    (hf : ∀ i, (f i).workId = i.workId ∧ ((f i).state = .staged → (f i).ready = true))
    (hparked : db'.parked id → db.parked id ∧ changed.workId ≠ some id) : Awake id db' where
  staged i hi hw hs := by
    rw [hrows] at hi
    obtain ⟨j, hj, rfl⟩ := List.mem_map.mp hi
    by_cases he : j.id = changed.id
    · rw [if_pos he] at hs ⊢
      exact (hf j).2 hs
    · rw [if_neg he] at hw hs ⊢
      exact ha.staged j hj hw hs
  parked hp := by
    obtain ⟨hp, hne⟩ := hparked hp
    obtain ⟨i, hi, hw, hq⟩ := ha.parked hp
    refine ⟨i, ?_, hw, hq⟩
    rw [hrows]
    refine List.mem_map.mpr ⟨i, hi, if_neg fun he => hne ?_⟩
    rw [← List.inj_on_of_nodup_map db.inputs.nodup hi hc he, hw]

theorem prepareInput_cases {seen : Option Db} {identity : Nat} {payload : Json} {media : Bool}
    {hook : Except Err Unit} {b : Bool}
    (h : prepareInput seen db now identity payload media hook = .ok (db', b)) :
    db' = db ∨ ∃ changed, db.inputs.get? identity = some changed ∧ changed.preparing = true ∧
      db'.inputs.rows = db.inputs.rows.map (fun i => if i.id = changed.id then
        { i with payload := .doc payload.sortKeys, ready := true } else i) ∧
      ∀ k, db'.works.get? k = (db.works.get? k).map fun w =>
        if (changed.workId == some w.id && (w.state == .waitingExternal || w.state == .waitingUser))
        then { w with state := .queued, reason := some "input_prepared", updated := now,
                      revision := w.revision + 1 } else w := by
  unfold prepareInput at h
  split at h
  · exact .inl (Prod.mk.inj (Except.ok.inj h)).1.symm
  split at h
  · simp only [bind_eq_ok, pure_eq_ok] at h
    obtain ⟨-, -, h⟩ := h
    exact .inl (Prod.mk.inj h).1.symm
  · rename_i changed hfilter
    obtain ⟨hget, hprep⟩ := Option.filter_eq_some_iff.mp hfilter
    simp only [preparable, Bool.and_eq_true] at hprep
    simp only [bind_eq_ok, pure_eq_ok] at h
    obtain ⟨-, -, -, -, h⟩ := h
    obtain ⟨rfl, -⟩ := Prod.mk.inj h
    obtain rfl := Table.get?_key hget
    refine .inr ⟨changed, hget, hprep.1.2, ?_, Table.get?_update _ _ _ (by intro; rfl)⟩
    simp only [wakePrepared, Table.rows_update, decide_eq_true_eq]

theorem discardInput_cases (db : Db) (now : Time) (identity : Nat) :
    discardInput db now identity = db ∨
    ∃ changed, db.inputs.get? identity = some changed ∧ changed.preparing = true ∧
      (discardInput db now identity).inputs.rows = db.inputs.rows.map (fun i =>
        if i.id = changed.id then { i with state := .cancelled, payload := .doc (.obj []) } else i) ∧
      ∀ k, (discardInput db now identity).works.get? k = (db.works.get? k).map fun w =>
        if (changed.workId == some w.id && w.state == .waitingExternal &&
          w.reason == some "work_input_preparing")
        then { w with state := .queued, reason := some "input_preparation_cleared",
                      revision := w.revision + 1, updated := now } else w := by
  unfold discardInput
  split
  · exact .inl rfl
  · rename_i changed hfilter
    obtain ⟨hget, hprep⟩ := Option.filter_eq_some_iff.mp hfilter
    obtain rfl := Table.get?_key hget
    refine .inr ⟨changed, hget, hprep, ?_, Table.get?_update _ _ _ (by intro; rfl)⟩
    simp only [Table.rows_update, decide_eq_true_eq]

theorem prepareInput_awake {seen : Option Db} {identity : Nat} {payload : Json} {media : Bool}
    {hook : Except Err Unit} {b : Bool}
    (h : prepareInput seen db now identity payload media hook = .ok (db', b)) (ha : Awake id db) :
    Awake id db' := by
  rcases prepareInput_cases h with rfl | ⟨changed, hget, -, hrows, hworks⟩
  · exact ha
  refine ha.settled (Table.get?_mem hget) hrows (fun i => ⟨rfl, fun _ => rfl⟩) ?_
  rintro ⟨w, hw, hs, hr⟩
  rw [hworks, Option.map_eq_some_iff] at hw
  obtain ⟨v, hv, rfl⟩ := hw
  split at hs
  · simp at hs
  · rename_i hp
    rw [if_neg hp] at hr
    refine ⟨⟨v, hv, hs, hr⟩, fun hc => hp ?_⟩
    simp [hc, hs, Table.get?_key hv]

theorem discardInput_awake (identity : Nat) (ha : Awake id db) :
    Awake id (discardInput db now identity) := by
  rcases discardInput_cases db now identity with h | ⟨changed, hget, -, hrows, hworks⟩
  · rw [h]
    exact ha
  refine ha.settled (Table.get?_mem hget) hrows (fun i => ⟨rfl, by simp⟩) ?_
  rintro ⟨w, hw, hs, hr⟩
  rw [hworks, Option.map_eq_some_iff] at hw
  obtain ⟨v, hv, rfl⟩ := hw
  split at hs
  · simp at hs
  · rename_i hp
    rw [if_neg hp] at hr
    refine ⟨⟨v, hv, hs, hr⟩, fun hc => hp ?_⟩
    simp [hc, hs, hr, Table.get?_key hv]

/-- Whoever readies or discards an input of a parked Work queues the Work. -/
theorem prepareInput_wakes {seen : Option Db} {identity : Nat} {payload : Json} {media : Bool}
    {hook : Except Err Unit} {b : Bool}
    (h : prepareInput seen db now identity payload media hook = .ok (db', b))
    (hp : db.parked id) {i : InputRow} (hi : i ∈ db.inputs.rows) (hw : i.workId = some id)
    (hgone : i ∉ db'.inputs.rows) :
    ∃ w, db'.works.get? id = some w ∧ w.state = .queued := by
  rcases prepareInput_cases h with rfl | ⟨changed, hget, -, hrows, hworks⟩
  · exact absurd hi hgone
  have he : i.id = changed.id := by
    by_contra hne
    exact hgone (by rw [hrows]; exact List.mem_map.mpr ⟨i, hi, if_neg hne⟩)
  obtain rfl := List.inj_on_of_nodup_map db.inputs.nodup hi (Table.get?_mem hget) he
  obtain ⟨w, hg, hs, hr⟩ := hp
  refine ⟨_, by rw [hworks, hg, Option.map_some], ?_⟩
  rw [if_pos (by simp [hw, hs, Table.get?_key hg])]

theorem discardInput_wakes {identity : Nat} (hp : db.parked id) {i : InputRow}
    (hi : i ∈ db.inputs.rows) (hw : i.workId = some id)
    (hgone : i ∉ (discardInput db now identity).inputs.rows) :
    ∃ w, (discardInput db now identity).works.get? id = some w ∧ w.state = .queued := by
  rcases discardInput_cases db now identity with h | ⟨changed, hget, -, hrows, hworks⟩
  · rw [h] at hgone
    exact absurd hi hgone
  have he : i.id = changed.id := by
    by_contra hne
    exact hgone (by rw [hrows]; exact List.mem_map.mpr ⟨i, hi, if_neg hne⟩)
  obtain rfl := List.inj_on_of_nodup_map db.inputs.nodup hi (Table.get?_mem hget) he
  obtain ⟨w, hg, hs, hr⟩ := hp
  refine ⟨_, by rw [hworks, hg, Option.map_some], ?_⟩
  rw [if_pos (by simp [hw, hs, hr, Table.get?_key hg])]

end

/-! Settlement. -/

section

variable {id : String} {db : Db} {now : Time}

theorem Eased.of_get {db' : Db} (hi : db'.inputs = db.inputs)
    (hw : db'.works.get? id = db.works.get? id) : Eased id db db' where
  kept i h _ := by rw [hi]; exact h
  arrived i h _ := .inl (by rw [← hi]; exact h)
  parked := by
    rintro ⟨w, hg, h⟩
    exact ⟨w, by rw [← hw]; exact hg, h⟩

/-- Withdrawing a subtree cancels the Works below its root together with their mailboxes. -/
theorem stopOwnedExecution_awake {identity : String} (reason : Option String) (hne : id ≠ identity)
    (ha : Awake id db) : Awake id (stopOwnedExecution db now identity reason) where
  staged i hi hw hs := by
    obtain ⟨j, hj, rfl⟩ := List.mem_map.mp hi
    split at hs
    · simp at hs
    · rename_i hp
      rw [if_neg hp] at hw ⊢
      exact ha.staged j hj hw hs
  parked := by
    rintro ⟨w, hg, hs, hr⟩
    simp only [stopOwnedExecution, Table.get?_update, Option.map_eq_some_iff] at hg
    obtain ⟨v, hv, rfl⟩ := hg
    have hid := Table.get?_key hv
    by_cases hp : (db.isDescendant identity true v.id && v.id != identity &&
        !v.state.terminal) = true
    · rw [if_pos hp] at hs
      simp at hs
    · rw [if_neg hp] at hs hr
      obtain ⟨i, hi, hw, hq⟩ := ha.parked ⟨v, hv, hs, hr⟩
      have hout : db.isDescendant identity true id = false := by
        simpa [hid, hne, hs, WorkState.terminal] using hp
      refine ⟨i, ?_, hw, hq⟩
      simp only [stopOwnedExecution, Table.rows_update]
      exact List.mem_map.mpr ⟨i, hi, if_neg (by simp [hw, hout])⟩

theorem writeSettled_get {identity : String} {s : Settling} {goal : Option String}
    (hne : id ≠ identity) :
    (writeSettled db now identity s goal).works.get? id = db.works.get? id := by
  rw [writeSettled, Table.get?_update]
  cases h : db.works.get? id with
  | none => rfl
  | some w =>
    have hid := Table.get?_key h
    rw [Option.map_some, if_neg (by simp [hid, hne])]

theorem settle_awake {lease : WorkLease} {identity : String} {state : WorkState}
    {reason goal exitReason : Option String} {detail : Option RecoveryDetail} {before : WorkRow}
    (hget : db.works.get? identity = some before) (ha : Awake id db) :
    Awake id (settle db now lease identity
      (settling db now identity state reason goal exitReason) reason goal detail) := by
  generalize hs : settling db now identity state reason goal exitReason = s
  by_cases hid : id = identity
  · subst hid
    refine ⟨fun i hi hw hst => ?_, ?_⟩
    · rw [settle_inputs] at hi
      split at hi
      · obtain ⟨j, hj, rfl⟩ := List.mem_map.mp hi
        split at hst
        · simp at hst
        · rename_i hp
          rw [if_neg hp] at hw ⊢
          exact ha.staged j hj hw hst
      · exact ha.staged i hi hw hst
    · -- the settlement has seen an unready row; it is not staged, so it is in preparation
      rintro ⟨w, hg, hst, hr⟩
      rw [settle_row hget] at hg
      obtain rfl := Option.some.inj hg
      subst hs
      obtain ⟨i, hi, hwait, hready⟩ := mailbox_eq_some (settling_parked hst hr)
      simp only [awaited, Bool.and_eq_true, beq_iff_eq, InputRow.live, Bool.or_eq_true] at hwait
      obtain ⟨⟨hw, hlive⟩, -⟩ := hwait
      have hpending : i.state = .pending := by
        refine hlive.resolve_right fun hstaged => ?_
        simp [ha.staged i hi hw hstaged] at hready
      refine ⟨i, ?_, hw, by simp [InputRow.preparing, hpending, hready]⟩
      have hne : ¬(((settling db now id state reason goal exitReason).state = .failed ∨
          (settling db now id state reason goal exitReason).state = .cancelled) ∧
          (settling db now id state reason goal exitReason).businessArrived = false) := by
        rintro ⟨h | h, -⟩ <;> simp [settledRow, h] at hst
      rw [settle_inputs, if_neg hne]
      exact hi
  · have heased : Eased id db (writeSettled db now identity s goal) :=
      .of_get rfl (writeSettled_get hid)
    have hwritten := heased.awake ha
    have hstopped : Awake id (stopOwnedExecution _ now identity reason) :=
      stopOwnedExecution_awake reason hid hwritten
    unfold settle
    dsimp only
    split <;> split
    · exact (Eased.of_eq (by simp [cancelActiveWaits]) (by simp [cancelActiveWaits])).awake hstopped
    · exact (Eased.of_eq (by simp [cancelActiveWaits]) (by simp [cancelActiveWaits])).awake hwritten
    · exact (Eased.of_eq (by simp) (by simp)).awake hstopped
    · exact (Eased.of_eq (by simp) (by simp)).awake hwritten

theorem reportResult_eased (row : WorkRow) : Eased id db (reportResult db now row) := by
  unfold reportResult
  split
  · exact .refl db
  split
  · exact (Eased.insert db _ rfl).trans (wakeWaiting_eased id _ now _)
  · exact .refl db

theorem commitState_awake {db' : Db} {lease : WorkLease} {identity : String} {state : WorkState}
    {revision : Option Int} {reason goal exitReason : Option String}
    {detail : Option RecoveryDetail} {row : WorkRow}
    (h : commitState db now lease identity state revision reason goal exitReason detail =
      .ok (db', row)) (ha : Awake id db) : Awake id db' := by
  obtain ⟨before, hget, -, rfl, rfl⟩ := commitState_cases h
  exact (reportResult_eased _).awake (settle_awake hget ha)

/-- A completion notice is no business input. -/
theorem resultInput_business (row : WorkRow) (parentId : String) (n : Nat) :
    ({ resultInput row parentId now with id := n } : InputRow).business = false := by
  simp [InputRow.business, businessInputClause, resultInput]

/-- A settlement leaves no live business input on a Work it finishes or hands to the user. -/
theorem commitState_mailbox {db' : Db} {lease : WorkLease} {identity : String} {state : WorkState}
    {revision : Option Int} {reason goal exitReason : Option String}
    {detail : Option RecoveryDetail} {row w : WorkRow}
    (h : commitState db now lease identity state revision reason goal exitReason detail =
      .ok (db', row)) (hw : db'.works.get? identity = some w)
    (hs : w.state ∈ [WorkState.completed, .failed, .waitingUser]) :
    ∀ i ∈ db'.inputs.rows, i.workId = some identity → i.live = true → i.business = false := by
  obtain ⟨before, hget, -, rfl, rfl⟩ := commitState_cases h
  generalize hset : settling db now identity state reason goal exitReason = s at *
  have hrow := settle_row hget now lease s reason goal detail
  have hstate : s.state ∈ [WorkState.completed, .failed, .waitingUser] := by
    have hkept : w.state = s.state := by
      unfold reportResult at hw
      split at hw
      · rw [hrow] at hw
        exact congrArg WorkRow.state (Option.some.inj hw).symm
      split at hw
      · simp only [wakeWaiting, Table.get?_update, insertInput_works, hrow, Option.map_some,
          Option.some.injEq] at hw
        split at hw
        · rw [← hw] at hs
          simp at hs
        · exact congrArg WorkRow.state hw.symm
      · rw [hrow] at hw
        exact congrArg WorkRow.state (Option.some.inj hw).symm
    rwa [← hkept]
  have hempty := mailbox_eq_none (settling_finished (hset ▸ hstate))
  have hbefore : ∀ i ∈ db.inputs.rows, i.workId = some identity → i.live = true →
      i.business = false := by
    intro i hi hwork hlive
    have := hempty i hi
    simp only [awaited, hwork, hlive, beq_self_eq_true, Bool.true_and, Bool.or_eq_false_iff] at this
    exact this.2
  have hsettled : ∀ i ∈ (settle db now lease identity s reason goal detail).inputs.rows,
      i.workId = some identity → i.live = true → i.business = false := by
    intro i hi hwork hlive
    rw [settle_inputs] at hi
    split at hi
    · obtain ⟨j, hj, rfl⟩ := List.mem_map.mp hi
      split at hlive
      · simp [InputRow.live] at hlive
      · rename_i hp
        rw [if_neg hp] at hwork ⊢
        exact hbefore j hj hwork hlive
    · exact hbefore i hi hwork hlive
  intro i hi hwork hlive
  unfold reportResult at hi
  split at hi
  · exact hsettled i hi hwork hlive
  split at hi
  · rcases insertInput_rows (settle db now lease identity s reason goal detail)
      (resultInput (settledRow db now s goal before) _ now) with ⟨he, -⟩ | ⟨he, -⟩
    · exact hsettled i (by rw [← he]; exact hi) hwork hlive
    · have hi' : i ∈ _ := hi
      rw [wakeWaiting, he, List.mem_append, List.mem_singleton] at hi'
      rcases hi' with hi' | rfl
      · exact hsettled i hi' hwork hlive
      · exact resultInput_business _ _ _
  · exact hsettled i hi hwork hlive

end

/-! Attempts. -/

theorem stage_awake {id : String} {db db' : Db} {now : Time} {lease : WorkLease} {ids : List Nat}
    {attemptId : String} (h : stage db now lease ids attemptId = .ok db')
    (hready : ∀ i ∈ db.inputs.rows, i.id ∈ ids → i.ready = true) (ha : Awake id db) :
    Awake id db' := by
  simp only [stage, bind_eq_ok, pure_eq_ok] at h
  obtain ⟨-, -, -, -, -, -, rfl⟩ := h
  refine ⟨fun i hi hw hs => ?_, fun hp => ?_⟩
  · obtain ⟨j, hj, rfl⟩ := List.mem_map.mp hi
    split at hs
    · rename_i ht
      simp only [Bool.and_eq_true, List.contains_iff_mem] at ht
      rw [if_pos (by simpa using ht)]
      exact hready j hj ht.1.1.1
    · rename_i ht
      rw [if_neg ht] at hw ⊢
      exact ha.staged j hj hw hs
  · obtain ⟨i, hi, hw, hq⟩ := ha.parked hp
    refine ⟨i, List.mem_map.mpr ⟨i, hi, if_neg fun ht => ?_⟩, hw, hq⟩
    simp only [Bool.and_eq_true, List.contains_iff_mem] at ht
    simp [InputRow.preparing, hready i hi ht.1.1.1] at hq

theorem consume_awake {id : String} {db db' : Db} {now : Time} {lease : WorkLease}
    {attemptId : String} (h : consume db now lease attemptId = .ok db') (ha : Awake id db) :
    Awake id db' := by
  simp only [consume, bind_eq_ok, pure_eq_ok] at h
  obtain ⟨-, -, rfl⟩ := h
  refine ⟨fun i hi hw hs => ?_, fun hp => ?_⟩
  · obtain ⟨j, hj, rfl⟩ := List.mem_map.mp hi
    split at hs
    · simp at hs
    · rename_i ht
      rw [if_neg ht] at hw ⊢
      exact ha.staged j hj hw hs
  · obtain ⟨i, hi, hw, hq⟩ := ha.parked hp
    refine ⟨i, List.mem_map.mpr ⟨i, hi, if_neg fun ht => ?_⟩, hw, hq⟩
    simp only [Bool.and_eq_true, beq_iff_eq] at ht
    simp [InputRow.preparing, ht.2] at hq

/-! Runs. -/

/-- The writers that move inputs and wake or settle Works. -/
inductive WakeupOp
  | enqueue (seen : Option Db) (processId : String) (a : Enqueued)
  | matchUserReply (processId : String) (eventId : Int)
  | prepareInput (seen : Option Db) (identity : Nat) (payload : Json) (media : Bool)
      (hook : Except Err Unit)
  | discardInput (identity : Nat)
  | commitState (lease : WorkLease) (identity : String) (state : WorkState)
      (revision : Option Int) (reason goal exitReason : Option String)
      (detail : Option RecoveryDetail)
  | deliverDue (views : List (Db × Db)) (observedAt : Time)
  | matchRound (eventId : Int) (kind : EventKind) (conversationId : String)
      (prepared : List DueRow) (hook : Except Err Unit)
  | signalExternalAction (workId runId : String) (prepared : PreparedWaitAction)
  | stage (lease : WorkLease) (ids : List Nat) (attemptId : String)
  | consume (lease : WorkLease) (attemptId : String)

namespace WakeupOp

/-- The database a writer commits at time `now`. -/
def exec (db : Db) (now : Time) : WakeupOp → Except Err Db
  | enqueue seen processId a => (WorkRepository.enqueue seen db now processId a).map Prod.fst
  | matchUserReply processId eventId =>
    .ok (WorkWaitRepository.matchUserReply db now processId eventId).1
  | prepareInput seen identity payload media hook =>
    (WorkRepository.prepareInput seen db now identity payload media hook).map Prod.fst
  | discardInput identity => .ok (WorkRepository.discardInput db now identity)
  | commitState lease identity state revision reason goal exitReason detail =>
    (WorkRepository.commitState db now lease identity state revision reason goal exitReason
      detail).map Prod.fst
  | deliverDue views observedAt =>
    .ok (WorkWaitRepository.deliverDue views db observedAt now).1
  | matchRound eventId kind conversationId prepared hook =>
    (WorkWaitRepository.matchRound db now eventId kind conversationId prepared hook).map Prod.fst
  | signalExternalAction workId runId prepared =>
    .ok (WorkWaitRepository.signalExternalAction db now workId runId prepared)
  | stage lease ids attemptId => WorkRepository.stage db now lease ids attemptId
  | consume lease attemptId => WorkRepository.consume db now lease attemptId

/-- An attempt takes only inputs that are ready: it stops at the first that is not. -/
def takesReady (db : Db) : WakeupOp → Prop
  | stage _ ids _ => ∀ i ∈ db.inputs.rows, i.id ∈ ids → i.ready = true
  | _ => True

/-- Whether the writer readies or discards one input. -/
def settlesInput : WakeupOp → Bool
  | prepareInput .. => true
  | discardInput _ => true
  | _ => false

theorem awake {id : String} {db db' : Db} {now : Time} {op : WakeupOp}
    (h : op.exec db now = .ok db') (ht : op.takesReady db) (ha : Awake id db) : Awake id db' := by
  cases op with
  | enqueue =>
    obtain ⟨r, hr, rfl⟩ := map_eq_ok.mp h
    exact (enqueue_eased id hr).awake ha
  | matchUserReply =>
    obtain rfl := Except.ok.inj h
    exact (matchUserReply_eased id ..).awake ha
  | prepareInput =>
    obtain ⟨r, hr, rfl⟩ := map_eq_ok.mp h
    exact prepareInput_awake hr ha
  | discardInput =>
    obtain rfl := Except.ok.inj h
    exact discardInput_awake _ ha
  | commitState =>
    obtain ⟨r, hr, rfl⟩ := map_eq_ok.mp h
    exact commitState_awake hr ha
  | deliverDue =>
    obtain rfl := Except.ok.inj h
    exact (deliverDue_eased id ..).awake ha
  | matchRound =>
    obtain ⟨r, hr, rfl⟩ := map_eq_ok.mp h
    exact (matchRound_eased id hr).awake ha
  | signalExternalAction =>
    obtain rfl := Except.ok.inj h
    exact (signalExternalAction_eased id ..).awake ha
  | stage => exact stage_awake h ht ha
  | consume => exact consume_awake h ha

end WakeupOp

/-- A transaction of one writer, or a change apart from one Work and its mailbox. -/
inductive WakeupStep (id : String) : Db → Option (WakeupOp × Time) → Db → Prop
  | commit {db db' : Db} {op : WakeupOp} {now : Time} :
      op.exec db now = .ok db' → op.takesReady db → WakeupStep id db (some (op, now)) db'
  | rollback {db : Db} {op : WakeupOp} {now : Time} {e : Err} :
      op.exec db now = .error e → WakeupStep id db (some (op, now)) db
  | other {db db' : Db} : Eased id db db' → WakeupStep id db none db'

theorem WakeupStep.awake {id : String} {db db' : Db} {e : Option (WakeupOp × Time)}
    (h : WakeupStep id db e db') (ha : Awake id db) : Awake id db' := by
  cases h with
  | commit h ht => exact WakeupOp.awake h ht ha
  | rollback => exact ha
  | other h => exact h.awake ha

/-- Over any run in which attempts take ready inputs: a Work parked for the preparation of an
input has one; whoever readies or discards an input of a parked Work queues the Work in the same
transaction; and a settlement finishes a Work, or leaves it to the user, only without a pending
or staged business input. -/
theorem no_lost_wakeup {id : String} {db db' : Db} {es : List (Option (WakeupOp × Time))}
    (h : Run (WakeupStep id) db es db') (ha : Awake id db) :
    (db'.parked id → db'.preparing id) ∧
    (∀ (op : WakeupOp) (now : Time) (t : Db), op.exec db' now = .ok t → op.settlesInput = true →
      db'.parked id → ∀ i ∈ db'.inputs.rows, i.workId = some id → i ∉ t.inputs.rows →
      t.stateOf id = some .queued) ∧
    ∀ (lease : WorkLease) (state : WorkState) (revision : Option Int)
      (reason goal exitReason : Option String) (detail : Option RecoveryDetail) (now : Time)
      (t : Db) (row : WorkRow),
      commitState db' now lease id state revision reason goal exitReason detail = .ok (t, row) →
      (∃ s ∈ [WorkState.completed, .failed, .waitingUser], t.stateOf id = some s) →
      ∀ i ∈ t.inputs.rows, i.workId = some id → i.live = true → i.business = false := by
  have hawake : Awake id db' := Run.invariant (fun _ _ _ hs hh => hh.awake hs) h ha
  refine ⟨hawake.parked, fun op now t hop hsettles hp i hi hw hgone => ?_,
    fun lease state revision reason goal exitReason detail now t row hcommit hs => ?_⟩
  · cases op with
    | prepareInput =>
      obtain ⟨r, hr, rfl⟩ := map_eq_ok.mp hop
      obtain ⟨w, hg, hq⟩ := prepareInput_wakes hr hp hi hw hgone
      exact Db.stateOf_eq_some.mpr ⟨w, hg, hq⟩
    | discardInput =>
      obtain rfl := Except.ok.inj hop
      obtain ⟨w, hg, hq⟩ := discardInput_wakes hp hi hw hgone
      exact Db.stateOf_eq_some.mpr ⟨w, hg, hq⟩
    | _ => simp [WakeupOp.settlesInput] at hsettles
  · obtain ⟨s, hmem, hs⟩ := hs
    obtain ⟨w, hg, rfl⟩ := Db.stateOf_eq_some.mp hs
    exact commitState_mailbox hcommit hg hmem

/-- A message whose attachments are still being read, and its parked Work. -/
def unreadMessage : InputRow :=
  { id := 1, conversationId := "c", generation := 1, sourceKey := "event:2", workId := some "w",
    kind := "message", ready := false, payload := .doc (.obj []), created := 0 }

def parkedWork : WorkRow :=
  { id := "w", parentWorkId := none, conversationId := "c", generation := 1,
    sourceKey := "event:1", sourceJson := .obj [], goal := "answer", state := .waitingExternal,
    reason := some "work_input_preparing", created := 0, updated := 0 }

def parkedDb : Db :=
  { works := ⟨[parkedWork], by decide⟩
    inputs := ⟨[unreadMessage], by decide⟩ }

/-- The message is withdrawn, and the Work queued with it. -/
theorem no_lost_wakeup_withdrawn : (discardInput parkedDb 5 1).stateOf "w" = some .queued := by
  have hparked : parkedDb.parked "w" := ⟨parkedWork, rfl, rfl, rfl⟩
  have hawake : Awake "w" parkedDb := by
    refine ⟨fun i hi _ hs => ?_, fun _ => ⟨unreadMessage, List.mem_singleton_self _, rfl, rfl⟩⟩
    obtain rfl := List.mem_singleton.mp hi
    simp [unreadMessage] at hs
  refine (no_lost_wakeup (.nil parkedDb) hawake).2.1 (.discardInput 1) 5 _ rfl rfl hparked
    unreadMessage (List.mem_singleton_self _) rfl fun hmem => ?_
  have hstate := congrArg InputRow.state (List.mem_singleton.mp hmem)
  simp [unreadMessage] at hstate

end Yuki

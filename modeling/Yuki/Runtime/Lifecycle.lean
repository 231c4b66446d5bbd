import Yuki.Lib.Transition
import Yuki.Runtime.Waits

/-! The states of finished Works over any run of the writers: which of them may
leave such a state, and by what. -/

namespace Yuki

open Db WorkRepository SubagentRepository WorkWaitRepository

/-- The states of finished Works last, but for one Work that was resumed: that one may
be queued, if it failed or is a finished worker. -/
structure Lasting (resumed : Option String) (db db' : Db) : Prop where
  present : ∀ id w, db.works.get? id = some w → ∃ w', db'.works.get? id = some w'
  plain : ∀ id w, db.works.get? id = some w → db.children.get? id = none →
    db'.children.get? id = none
  finished : ∀ id w, db.works.get? id = some w → w.state.terminal = true →
    ∃ w', db'.works.get? id = some w' ∧ (w'.state = w.state ∨ (w'.state = .queued ∧
      resumed = some id ∧ w.state ≠ .cancelled ∧
      (w.state = .completed → db.children.get? id ≠ none)))

namespace Lasting

variable {db db' db'' : Db} {resumed : Option String}

theorem of_eq (hw : db'.works = db.works)
    (hc : ∀ id, db.children.get? id = none → db'.children.get? id = none) :
    Lasting resumed db db' where
  present id w h := ⟨w, by rw [hw, h]⟩
  plain id w _ h := hc id h
  finished id w h _ := ⟨w, by rw [hw, h], .inl rfl⟩

theorem refl (db : Db) : Lasting resumed db db :=
  .of_eq rfl fun _ h => h

/-- An update that leaves finished rows alone. -/
theorem update {p : WorkRow → Bool} {f : WorkRow → WorkRow}
    (hw : ∀ id, db'.works.get? id = (db.works.get? id).map fun w => if p w = true then f w else w)
    (hc : ∀ id, db.children.get? id = none → db'.children.get? id = none)
    (h : ∀ id w, db.works.get? id = some w → p w = true → w.state.terminal = true →
      (f w).state = w.state) : Lasting resumed db db' where
  present id w hg := ⟨_, by rw [hw, hg, Option.map_some]⟩
  plain id w _ hn := hc id hn
  finished id w hg ht := by
    refine ⟨_, by rw [hw, hg, Option.map_some], .inl ?_⟩
    by_cases hp : p w = true
    · rw [if_pos hp, h id w hg hp ht]
    · rw [if_neg hp]

/-- An update of one unfinished row. -/
theorem update_one {id : String} {f : WorkRow → WorkRow} {w : WorkRow}
    (hget : db.works.get? id = some w) (hopen : w.state.terminal = false)
    (hw : ∀ k, db'.works.get? k = (db.works.get? k).map fun v =>
      if decide (v.id = id) = true then f v else v)
    (hc : ∀ k, db.children.get? k = none → db'.children.get? k = none) :
    Lasting resumed db db' := by
  refine .update hw hc fun k v hv hp ht => ?_
  obtain rfl : k = id := (Table.get?_key hv).symm.trans (decide_eq_true_eq.mp hp)
  obtain rfl := Option.some.inj (hget.symm.trans hv)
  simp [hopen] at ht

/-- The resumption itself: the selected row has the resumed id and is queued. -/
theorem resume {id : String} {p : WorkRow → Bool} {f : WorkRow → WorkRow}
    (hw : ∀ k, db'.works.get? k = (db.works.get? k).map fun w => if p w = true then f w else w)
    (hc : ∀ k, db.children.get? k = none → db'.children.get? k = none)
    (h : ∀ w, db.works.get? id = some w → p w = true → (f w).state = .queued ∧
      w.state ≠ .cancelled ∧ (w.state = .completed → db.children.get? id ≠ none))
    (hp : ∀ w, p w = true → w.id = id) : Lasting (some id) db db' where
  present id w hg := ⟨_, by rw [hw, hg, Option.map_some]⟩
  plain id w _ hn := hc id hn
  finished v w hg _ := by
    refine ⟨_, by rw [hw, hg, Option.map_some], ?_⟩
    by_cases hs : p w = true
    · obtain rfl : v = id := (Table.get?_key hg).symm.trans (hp w hs)
      obtain ⟨hq, hne, hcomp⟩ := h w hg hs
      rw [if_pos hs]
      exact .inr ⟨hq, rfl, hne, hcomp⟩
    · exact .inl (by rw [if_neg hs])

/-- Nothing is resumed before the last change. -/
theorem trans (h : Lasting none db db') (h' : Lasting resumed db' db'') :
    Lasting resumed db db'' where
  present id w hg := by
    obtain ⟨w', hg'⟩ := h.present id w hg
    exact h'.present id w' hg'
  plain id w hg hn := by
    obtain ⟨w', hg'⟩ := h.present id w hg
    exact h'.plain id w' hg' (h.plain id w hg hn)
  finished id w hg ht := by
    obtain ⟨w', hg', hs | hs⟩ := h.finished id w hg ht
    · obtain ⟨w'', hg'', hs' | ⟨hq, hr, hne, hcomp⟩⟩ := h'.finished id w' hg' (hs ▸ ht)
      · exact ⟨w'', hg'', .inl (hs'.trans hs)⟩
      · rw [hs] at hne hcomp
        exact ⟨w'', hg'', .inr ⟨hq, hr, hne, fun hc hn => hcomp hc (h.plain id w hg hn)⟩⟩
    · simp at hs

theorem prepend (h : Lasting resumed db' db'') (hw : db'.works = db.works)
    (hc : db'.children = db.children) : Lasting resumed db db'' where
  present id w hg := h.present id w (hw ▸ hg)
  plain id w hg hn := h.plain id w (hw ▸ hg) (hc ▸ hn)
  finished id w hg ht := by rw [← hc]; exact h.finished id w (hw ▸ hg) ht

theorem append (h : Lasting resumed db db') (hw : db''.works = db'.works)
    (hc : db''.children = db'.children) : Lasting resumed db db'' where
  present id w hg := by rw [hw]; exact h.present id w hg
  plain id w hg hn := by rw [hc]; exact h.plain id w hg hn
  finished id w hg ht := by rw [hw]; exact h.finished id w hg ht

/-- Nothing was resumed: that is so whatever is said to have been. -/
theorem mono (h : Lasting none db db') : Lasting resumed db db' :=
  h.trans (.refl db')

end Lasting

/-! What each writer does. -/

theorem insertInput_lasting (db : Db) (r : InputRow) : Lasting none db (db.insertInput r).1 :=
  .of_eq (insertInput_works db r) fun _ h => by rw [insertInput_children, h]

theorem wakeWaiting_lasting (db : Db) (now : Time) (p : WorkRow → Bool) :
    Lasting none db (db.wakeWaiting now p) := by
  refine .update (Table.get?_update _ _ _ (by intro; rfl)) (fun _ h => h)
    fun _ w _ hp ht => ?_
  simp only [Bool.and_eq_true, beq_iff_eq] at hp
  simp [hp.1.2, WorkState.terminal] at ht

theorem stopOwnedExecution_lasting (db : Db) (now : Time) (identity : String)
    (reason : Option String) : Lasting none db (stopOwnedExecution db now identity reason) := by
  refine .update (Table.get?_update _ _ _ (by intro; rfl)) (fun id h => ?_)
    fun _ w _ hp ht => ?_
  · simp [Yuki.stopOwnedExecution, h]
  · simp only [Bool.and_eq_true, Bool.not_eq_true'] at hp
    simp [hp.2] at ht

theorem cancelInSession_lasting (db : Db) (now : Time) (conversationId : String)
    (generation : Option Int) :
    Lasting none db (cancelInSession db now conversationId generation) := by
  refine .update (Table.get?_update _ _ _ (by intro; rfl)) (fun id h => ?_)
    fun _ w _ hp ht => ?_
  · simp [WorkRepository.cancelInSession, h]
  · simp only [Bool.and_eq_true, Bool.not_eq_true'] at hp
    simp [hp.2] at ht

theorem committable_open {lease : WorkLease} {identity : String} {revision : Option Int}
    {w : WorkRow} (h : committable lease identity revision w = true) : w.state.terminal = false := by
  simp only [committable, Bool.and_eq_true, Bool.not_eq_true'] at h
  exact h.1.2

theorem reportResult_lasting (db : Db) (now : Time) (row : WorkRow) :
    Lasting none db (reportResult db now row) := by
  unfold reportResult
  split
  · exact .refl db
  split
  · exact (insertInput_lasting db _).trans (wakeWaiting_lasting _ now _)
  · exact .refl db

theorem settle_lasting {db : Db} {identity : String} {w : WorkRow}
    (hget : db.works.get? identity = some w) (hopen : w.state.terminal = false) (now : Time)
    (lease : WorkLease) (s : Settling) (reason goal : Option String)
    (detail : Option RecoveryDetail) :
    Lasting none db (settle db now lease identity s reason goal detail) := by
  have hwritten : Lasting none db (writeSettled db now identity s goal) :=
    .update_one hget hopen (Table.get?_update _ _ _ (settledRow_id db now s goal)) fun _ h => h
  have hstopped := hwritten.trans (stopOwnedExecution_lasting _ now identity reason)
  unfold settle
  dsimp only
  by_cases hs : (s.state = .failed ∨ s.state = .cancelled) ∧ s.businessArrived = false
  · rw [if_pos hs]
    refine hstopped.append ?_ ?_ <;> split <;> simp [cancelActiveWaits]
  · rw [if_neg hs]
    refine hwritten.append ?_ ?_ <;> split <;> simp [cancelActiveWaits]

theorem commitState_lasting {db db' : Db} {now : Time} {lease : WorkLease} {identity : String}
    {state : WorkState} {revision : Option Int} {reason goal exitReason : Option String}
    {detail : Option RecoveryDetail} {row : WorkRow}
    (h : commitState db now lease identity state revision reason goal exitReason detail =
      .ok (db', row)) : Lasting none db db' := by
  obtain ⟨before, hget, hc, rfl, rfl⟩ := commitState_cases h
  exact (settle_lasting hget (committable_open hc) now lease _ reason goal detail).trans
    (reportResult_lasting _ now _)

theorem explicitResume_lasting {db db' : Db} {now : Time} {a : Enqueued}
    (h : explicitResume db now a = .ok db') : Lasting a.workId db db' := by
  simp only [explicitResume, bind_eq_ok, expect_eq_ok, require_eq_ok, pure_eq_ok] at h
  obtain ⟨id, hid, -, -, rfl⟩ := h
  have hsel : ∀ w, resumable a w = true → w.id = id ∧ w.state ≠ .completed ∧
      w.state ≠ .cancelled := by
    intro w hw
    simp only [resumable, Bool.and_eq_true, beq_iff_eq, bne_iff_ne, hid, Option.some.injEq] at hw
    exact ⟨hw.1.1.1.1.1.symm, hw.1.1.2, hw.1.2⟩
  rw [hid]
  refine .resume (Table.get?_update _ _ _ (by intro; rfl)) (fun _ h => h) (fun w _ hp => ?_) fun w hp => (hsel w hp).1
  exact ⟨rfl, (hsel w hp).2.2, fun hc => absurd hc (hsel w hp).2.1⟩

/-- The Work an input resumes, if it resumes any. -/
def Enqueued.resumes (a : Enqueued) : Option String :=
  if a.resume.isSome then a.workId else none

theorem enqueue_lasting {seen : Option Db} {db db' : Db} {now : Time} {processId : String}
    {a : Enqueued} {id : Nat} (h : enqueue seen db now processId a = .ok (db', id)) :
    Lasting a.resumes db db' := by
  simp only [enqueue, bind_eq_ok] at h
  obtain ⟨-, -, h⟩ := h
  split at h
  · simp only [bind_eq_ok, pure_eq_ok] at h
    obtain ⟨-, -, h⟩ := h
    obtain ⟨rfl, -⟩ := Prod.mk.inj h
    exact .refl db
  · simp only [bind_eq_ok, expect_eq_ok, admitInput, onlyIf_eq_ok, pure_eq_ok] at h
    obtain ⟨-, -, row, -, -, -, -, -, resumed, hres, h⟩ := h
    obtain ⟨rfl, -⟩ := Prod.mk.inj h
    refine (insertInput_lasting db (a.row now processId)).trans ?_
    rcases hres with ⟨hc, hres⟩ | ⟨-, rfl⟩
    · simp only [Bool.and_eq_true] at hc
      rw [Enqueued.resumes, if_pos hc.1]
      exact explicitResume_lasting hres
    · exact .refl _

theorem wakePrepared_lasting (db : Db) (now : Time) (workId : Option String) :
    Lasting none db (wakePrepared db now workId) := by
  refine .update (Table.get?_update _ _ _ (by intro; rfl)) (fun _ h => h)
    fun _ w _ hp ht => ?_
  simp only [Bool.and_eq_true, Bool.or_eq_true, beq_iff_eq] at hp
  rcases hp.2 with h | h <;> simp [h, WorkState.terminal] at ht

theorem prepareInput_lasting {seen : Option Db} {db db' : Db} {now : Time} {identity : Nat}
    {payload : Json} {media : Bool} {hook : Except Err Unit} {b : Bool}
    (h : prepareInput seen db now identity payload media hook = .ok (db', b)) :
    Lasting none db db' := by
  unfold prepareInput at h
  split at h
  · obtain ⟨rfl, -⟩ := Prod.mk.inj (Except.ok.inj h)
    exact .refl db
  split at h
  · simp only [bind_eq_ok, pure_eq_ok] at h
    obtain ⟨-, -, h⟩ := h
    obtain ⟨rfl, -⟩ := Prod.mk.inj h
    exact .refl db
  · simp only [bind_eq_ok, pure_eq_ok] at h
    obtain ⟨-, -, -, -, h⟩ := h
    obtain ⟨rfl, -⟩ := Prod.mk.inj h
    exact (wakePrepared_lasting _ now _).prepend rfl rfl

theorem discardInput_lasting (db : Db) (now : Time) (identity : Nat) :
    Lasting none db (discardInput db now identity) := by
  unfold discardInput
  split
  · exact .refl db
  · refine .update (Table.get?_update _ _ _ (by intro; rfl)) (fun _ h => h)
      fun _ w _ hp ht => ?_
    simp only [Bool.and_eq_true, beq_iff_eq] at hp
    simp [hp.1.2, WorkState.terminal] at ht

theorem routeChildCompletion_lasting {seen db db' : Db} {now : Time} {requestId : String}
    (h : routeChildCompletion seen db now requestId = .ok db') : Lasting none db db' := by
  unfold routeChildCompletion at h
  split at h
  · split at h
    · obtain rfl := Except.ok.inj h
      exact .refl db
    split at h
    · obtain rfl := Except.ok.inj h
      exact .of_eq rfl fun _ h => h
    split at h
    · obtain rfl := Except.ok.inj h
      exact .of_eq rfl fun _ h => h
    · simp only [handCompletion, bind_eq_ok, pure_eq_ok] at h
      obtain ⟨-, -, rfl⟩ := h
      exact ((insertInput_lasting db _).trans (wakeWaiting_lasting _ now _)).append rfl rfl
  · obtain rfl := Except.ok.inj h
    exact .refl db

theorem reportStop_lasting (db : Db) (now : Time) (identity : String) (revision : Int)
    (state : WorkState) (reason : String) (parentId : Option String) :
    Lasting none db (reportStop db now identity revision state reason parentId) := by
  unfold reportStop
  split
  · exact .refl db
  · exact (insertInput_lasting db _).trans (wakeWaiting_lasting _ now _)

theorem stopWork_lasting {db : Db} {row : WorkRow} (hget : db.works.get? row.id = some row)
    (hopen : row.state.terminal = false) (now : Time) (state : WorkState) (reason : String) :
    Lasting none db (stopWork db now row state reason) := by
  refine (stopOwnedExecution_lasting db now row.id (some reason)).trans ?_
  refine Lasting.trans ?_ (reportStop_lasting _ now row.id (row.revision + 1) state reason
    row.parentWorkId)
  exact .update_one (stopOwnedExecution_root _ _ hget) hopen (Table.get?_update _ _ _ (by intro; rfl))
    fun _ h => h

/-- The Work a management action resumes. -/
def ManagementAction.resumes (action : ManagementAction) (identity : String) : Option String :=
  if action = .resume then some identity else none

theorem manageWork_lasting {db db' : Db} {now : Time} {identity : String} {revision : Int}
    {action : ManagementAction} {reason : Option String} {r : Int × WorkState}
    (h : manageWork db now identity revision action reason = .ok (db', r)) :
    Lasting (action.resumes identity) db db' := by
  simp only [manageWork, bind_eq_ok, expect_eq_ok, require_eq_ok] at h
  obtain ⟨-, -, row, hget, -, -, -, hopen, h⟩ := h
  have hid := Table.get?_key hget
  cases action with
  | cancel =>
    obtain ⟨rfl, -⟩ := Prod.mk.inj (pure_eq_ok.mp h)
    exact stopWork_lasting (hid ▸ hget) (hopen.resolve_right (by simp)) now _ _
  | fail =>
    obtain ⟨rfl, -⟩ := Prod.mk.inj (pure_eq_ok.mp h)
    exact stopWork_lasting (hid ▸ hget) (hopen.resolve_right (by simp)) now _ _
  | resume =>
    simp only [bind_eq_ok, pure_eq_ok] at h
    obtain ⟨-, -, h⟩ := h
    obtain ⟨rfl, -⟩ := Prod.mk.inj h
    refine .resume (Table.get?_update _ _ _ (by intro; rfl)) (fun _ h => h) (fun w hw _ => ?_) fun w hp => by simpa [hid] using hp
    obtain rfl := Option.some.inj (hget.symm.trans hw)
    refine ⟨rfl, ?_, ?_⟩ <;> rcases hopen with ho | ⟨-, ho⟩ <;> intro hc <;>
      simp [hc, WorkState.terminal] at ho

theorem acquireWorker_lasting {db db' : Db} {now : Time} {identity owner : String}
    {issued : Option WorkLease}
    (h : SubagentRepository.acquire db now identity owner = .ok (db', issued)) :
    Lasting none db db' := by
  unfold SubagentRepository.acquire at h
  split at h
  · obtain ⟨rfl, -⟩ := Prod.mk.inj (Except.ok.inj h)
    exact .refl db
  rename_i row hget
  split at h
  · obtain ⟨rfl, -⟩ := Prod.mk.inj (Except.ok.inj h)
    exact .refl db
  rename_i hstate
  have hopen : row.state.terminal = false := by
    by_cases hq : row.state = .queued
    · simp [hq, WorkState.terminal]
    · have hr : row.state = .running := by
        by_contra hr
        exact hstate ⟨hq, hr⟩
      simp [hr, WorkState.terminal]
  split at h
  · obtain ⟨rfl, -⟩ := Prod.mk.inj (Except.ok.inj h)
    exact .update_one hget hopen (Table.get?_update _ _ _ (by intro; rfl)) fun _ h => h
  split at h
  · obtain ⟨rfl, -⟩ := Prod.mk.inj (Except.ok.inj h)
    exact .refl db
  split at h
  · obtain ⟨rfl, -⟩ := Prod.mk.inj (Except.ok.inj h)
    exact .update_one hget hopen (Table.get?_update _ _ _ (by intro; rfl)) fun _ h => by simp [h]
  · obtain ⟨rfl, -⟩ := Prod.mk.inj (Except.ok.inj h)
    exact .refl db

/-- The worker a message resumes: messages to a parent resume nothing. -/
def SubagentRepository.Message.resumes (m : Message) : Option String :=
  if m.toParent then none else some m.identity

theorem wakeTarget_lasting {db : Db} {m : Message} {target : WorkRow}
    (hget : db.works.get? m.destination = some target)
    (hchild : db.children.get? m.identity ≠ none)
    (hlive : m.toParent = true ∨ target.state ≠ .cancelled) (now : Time) :
    Lasting m.resumes db (wakeTarget db now m target) := by
  unfold wakeTarget
  split
  · rename_i hw
    have hrel : ∀ id, db.children.get? id = none →
        (if m.businessInput then db.cancelActiveWaits now m.destination else db).children.get? id
          = none := by
      intro id h
      split <;> exact h
    cases hto : m.toParent with
    | true =>
      have hopen : target.state.terminal = false := by
        simp only [Message.wakes, hto, Bool.true_and, if_true] at hw
        cases hstate : target.state <;> simp_all [WorkState.terminal]
      rw [Message.resumes, if_pos hto]
      exact .update_one hget hopen (Table.get?_update _ _ _ (by intro; rfl)) hrel
    | false =>
      have hd : m.destination = m.identity := by simp [Message.destination, hto]
      rw [Message.resumes, if_neg (by simp [hto])]
      refine .resume (Table.get?_update _ _ _ (by intro; rfl)) hrel (fun w hg _ => ?_)
        fun w hp => by simpa [hd] using hp
      obtain rfl := Option.some.inj (hg.symm.trans (hd ▸ hget))
      exact ⟨rfl, hlive.resolve_left (by simp [hto]), fun _ => hchild⟩
  · exact Lasting.refl db

theorem message_lasting {seen db db' : Db} {now : Time} {lease : WorkLease} {m : Message}
    {waiting : Bool} (h : message seen db now lease m = .ok (db', waiting)) :
    Lasting m.resumes db db' := by
  simp only [message, bind_eq_ok, expect_eq_ok, require_eq_ok] at h
  obtain ⟨-, -, -, -, -, -, -, -, child, hchild, -, -, target, hget, -, -, -, hlive, h⟩ := h
  split at h
  · obtain ⟨rfl, -⟩ := Prod.mk.inj (pure_eq_ok.mp h)
    exact .refl db
  rename_i text _
  have hins := insertInput_lasting db (m.input lease text now)
  cases he : db.insertInput (m.input lease text now) with
  | mk inserted entry =>
    simp only [he] at h hins
    have hworks : inserted.works = db.works := by
      have := insertInput_works db (m.input lease text now)
      rwa [he] at this
    have hchildren : inserted.children = db.children := by
      have := insertInput_children db (m.input lease text now)
      rwa [he] at this
    cases entry with
    | none =>
      obtain ⟨rfl, -⟩ := Prod.mk.inj (pure_eq_ok.mp h)
      exact hins.mono
    | some id =>
      obtain ⟨rfl, -⟩ := Prod.mk.inj (pure_eq_ok.mp h)
      exact hins.trans (wakeTarget_lasting (hworks ▸ hget) (by rw [hchildren, hchild]; simp) hlive now)

theorem resume_lasting {seen db db' : Db} {now : Time} {lease : WorkLease}
    {parentId identity key : String} {instruction : Option String}
    (h : SubagentRepository.resume seen db now lease parentId identity key instruction = .ok db') :
    Lasting (some identity) db db' := by
  unfold SubagentRepository.resume at h
  split at h
  · simp only [bind_eq_ok, pure_eq_ok] at h
    obtain ⟨sent, hsent, rfl⟩ := h
    exact message_lasting hsent
  · simp only [bind_eq_ok, expect_eq_ok, require_eq_ok, pure_eq_ok] at h
    obtain ⟨-, -, -, -, row, hget, child, hchild, -, -, -, hlive, -, -, rfl⟩ := h
    have hid := Table.get?_key hget
    unfold queueWorker
    dsimp only
    split
    · exact .of_eq rfl fun _ h => h
    · refine .resume (Table.get?_update _ _ _ (by intro; rfl)) (fun _ h => h) (fun w hw _ => ?_)
        fun w hp => by simpa [hid] using hp
      obtain rfl := Option.some.inj (hget.symm.trans hw)
      exact ⟨rfl, hlive, fun _ => by simp [hchild]⟩

theorem finishResults_lasting {db db' : Db} {now : Time} {prepared : List PreparedResult}
    {published : List String} (h : finishResults db now prepared = .ok (db', published)) :
    Lasting none db db' := by
  have hpublish (ps : List PreparedResult) (d : Db) : Lasting none d (ps.foldl publishResult d) := by
    induction ps generalizing d with
    | nil => exact .refl d
    | cons p ps ih =>
      refine Lasting.trans ?_ (ih (publishResult d p))
      exact .of_eq rfl fun _ h => by simp [publishResult, h]
  have hinsert (ps : List PreparedResult) (d : Db) :
      Lasting none d (ps.foldl (fun d p => (d.insertInput (p.input now)).1) d) := by
    induction ps generalizing d with
    | nil => exact .refl d
    | cons p ps ih => exact (insertInput_lasting d _).trans (ih _)
  simp only [finishResults, bind_eq_ok, pure_eq_ok] at h
  obtain ⟨-, -, h⟩ := h
  obtain ⟨rfl, -⟩ := Prod.mk.inj h
  have hall := (hpublish (prepared.filter fun p => p.publishes db now) db).trans
    (hinsert ((prepared.filter fun p => p.publishes db now).filter fun p =>
      resultStates.contains p.row.state) _)
  split
  · exact hall
  · exact hall.trans (wakeWaiting_lasting _ now _)

theorem wakeSignalled_lasting (db : Db) (now : Time) (workId : String) :
    Lasting none db (wakeSignalled db now workId) := by
  refine .update (Table.get?_update _ _ _ (by intro; rfl)) (fun _ h => h)
    fun _ w _ hp ht => ?_
  simp only [Bool.and_eq_true, Bool.or_eq_true, beq_iff_eq] at hp
  rcases hp.2 with h | h <;> simp [h, WorkState.terminal] at ht

theorem deliver_lasting (db : Db) (b : Binding) (o : Option Original) (cs : List Condition)
    (reason : SignalReason) (now : Time) (event : Option Int) :
    Lasting none db (deliver db b o cs reason now event).1 := by
  unfold deliver
  dsimp only
  split
  · exact .of_eq rfl fun _ h => h
  split
  · exact .refl db
  · have hins : Lasting none db ((endWait db now b.id cs reason).insertInput
        (signalInput b cs reason now event)).1 := (insertInput_lasting _ _).prepend rfl rfl
    exact hins.trans (wakeSignalled_lasting _ now b.workId)

theorem signalExternalAction_lasting (db : Db) (now : Time) (workId runId : String)
    (prepared : PreparedWaitAction) :
    Lasting none db (signalExternalAction db now workId runId prepared) := by
  unfold signalExternalAction
  split
  · exact .refl db
  split
  · exact .refl db
  split
  · split
    · exact deliver_lasting ..
    · exact .refl db
  · refine .update (Table.get?_update _ _ _ (by intro; rfl)) (fun _ h => h)
      fun _ w _ hp ht => ?_
    simp only [Bool.and_eq_true, beq_iff_eq] at hp
    simp [hp.2, WorkState.terminal] at ht

/-! Runs. -/

/-- The writers of Work states, with their arguments. -/
inductive LifecycleOp
  | commitState (lease : WorkLease) (identity : String) (state : WorkState)
      (revision : Option Int) (reason goal exitReason : Option String)
      (detail : Option RecoveryDetail)
  | enqueue (seen : Option Db) (processId : String) (a : Enqueued)
  | prepareInput (seen : Option Db) (identity : Nat) (payload : Json) (media : Bool)
      (hook : Except Err Unit)
  | discardInput (identity : Nat)
  | cancelInSession (conversationId : String) (generation : Option Int)
  | routeChildCompletion (seen : Db) (requestId : String)
  | stopOwnedExecution (identity : String) (reason : Option String)
  | manageWork (identity : String) (revision : Int) (action : ManagementAction)
      (reason : Option String)
  | acquire (identity owner : String)
  | message (seen : Db) (lease : WorkLease) (m : Message)
  | resume (seen : Db) (lease : WorkLease) (parentId identity key : String)
      (instruction : Option String)
  | finishResults (prepared : List PreparedResult)
  | deliver (b : Binding) (original : Option Original) (conditions : List Condition)
      (reason : SignalReason) (sourceEventId : Option Int)
  | signalExternalAction (workId runId : String) (prepared : PreparedWaitAction)

namespace LifecycleOp

/-- The database a writer commits at time `now`. -/
def exec (db : Db) (now : Time) : LifecycleOp → Except Err Db
  | commitState lease identity state revision reason goal exitReason detail =>
    (WorkRepository.commitState db now lease identity state revision reason goal exitReason
      detail).map Prod.fst
  | enqueue seen processId a => (WorkRepository.enqueue seen db now processId a).map Prod.fst
  | prepareInput seen identity payload media hook =>
    (WorkRepository.prepareInput seen db now identity payload media hook).map Prod.fst
  | discardInput identity => .ok (WorkRepository.discardInput db now identity)
  | cancelInSession conversationId generation =>
    .ok (WorkRepository.cancelInSession db now conversationId generation)
  | routeChildCompletion seen requestId =>
    WorkRepository.routeChildCompletion seen db now requestId
  | stopOwnedExecution identity reason => .ok (Yuki.stopOwnedExecution db now identity reason)
  | manageWork identity revision action reason =>
    (Yuki.manageWork db now identity revision action reason).map Prod.fst
  | acquire identity owner => (SubagentRepository.acquire db now identity owner).map Prod.fst
  | message seen lease m => (SubagentRepository.message seen db now lease m).map Prod.fst
  | resume seen lease parentId identity key instruction =>
    SubagentRepository.resume seen db now lease parentId identity key instruction
  | finishResults prepared => (SubagentRepository.finishResults db now prepared).map Prod.fst
  | deliver b original conditions reason sourceEventId =>
    .ok (WorkWaitRepository.deliver db b original conditions reason now sourceEventId).1
  | signalExternalAction workId runId prepared =>
    .ok (WorkWaitRepository.signalExternalAction db now workId runId prepared)

/-- The Work a writer resumes explicitly. -/
def resumes : LifecycleOp → Option String
  | enqueue _ _ a => a.resumes
  | manageWork identity _ action _ => action.resumes identity
  | message _ _ m => m.resumes
  | resume _ _ _ identity _ _ => some identity
  | _ => none

theorem lasting {db db' : Db} {now : Time} {op : LifecycleOp} (h : op.exec db now = .ok db') :
    Lasting op.resumes db db' := by
  cases op with
  | commitState =>
    obtain ⟨r, hr, rfl⟩ := map_eq_ok.mp h
    exact commitState_lasting hr
  | enqueue =>
    obtain ⟨r, hr, rfl⟩ := map_eq_ok.mp h
    exact enqueue_lasting hr
  | prepareInput =>
    obtain ⟨r, hr, rfl⟩ := map_eq_ok.mp h
    exact prepareInput_lasting hr
  | discardInput =>
    obtain rfl := Except.ok.inj h
    exact discardInput_lasting ..
  | cancelInSession =>
    obtain rfl := Except.ok.inj h
    exact cancelInSession_lasting ..
  | routeChildCompletion => exact routeChildCompletion_lasting h
  | stopOwnedExecution =>
    obtain rfl := Except.ok.inj h
    exact stopOwnedExecution_lasting ..
  | manageWork =>
    obtain ⟨r, hr, rfl⟩ := map_eq_ok.mp h
    exact manageWork_lasting hr
  | acquire =>
    obtain ⟨r, hr, rfl⟩ := map_eq_ok.mp h
    exact acquireWorker_lasting hr
  | message =>
    obtain ⟨r, hr, rfl⟩ := map_eq_ok.mp h
    exact message_lasting hr
  | resume => exact resume_lasting h
  | finishResults =>
    obtain ⟨r, hr, rfl⟩ := map_eq_ok.mp h
    exact finishResults_lasting hr
  | deliver =>
    obtain rfl := Except.ok.inj h
    exact deliver_lasting ..
  | signalExternalAction =>
    obtain rfl := Except.ok.inj h
    exact signalExternalAction_lasting ..

end LifecycleOp

/-- A transaction of one writer, or a change that no state of a finished Work takes part in. -/
inductive LifecycleStep : Db → Option (LifecycleOp × Time) → Db → Prop
  | commit {db db' : Db} {op : LifecycleOp} {now : Time} :
      op.exec db now = .ok db' → LifecycleStep db (some (op, now)) db'
  | rollback {db : Db} {op : LifecycleOp} {now : Time} {e : Err} :
      op.exec db now = .error e → LifecycleStep db (some (op, now)) db
  | other {db db' : Db} : Lasting none db db' → LifecycleStep db none db'

theorem LifecycleStep.lasting {db db' : Db} {e : Option (LifecycleOp × Time)}
    (h : LifecycleStep db e db') : Lasting (e.bind fun e => e.1.resumes) db db' := by
  cases h with
  | commit h => exact LifecycleOp.lasting h
  | rollback => exact .refl db
  | other h => exact h

/-- A finished state is kept, or left by an explicit resume of a failed Work or a worker. -/
theorem Lasting.stateOf {db db' : Db} {resumed : Option String} (h : Lasting resumed db db')
    {id : String} {s : WorkState} (hs : db.stateOf id = some s) (ht : s.terminal = true) :
    db'.stateOf id = some s ∨ (db'.stateOf id = some .queued ∧ resumed = some id ∧
      s ≠ .cancelled ∧ (s = .completed → db.children.get? id ≠ none)) := by
  obtain ⟨w, hw, rfl⟩ := Db.stateOf_eq_some.mp hs
  obtain ⟨w', hw', hk | ⟨hq, hr⟩⟩ := h.finished id w hw ht
  · exact .inl (Db.stateOf_eq_some.mpr ⟨w', hw', hk⟩)
  · exact .inr ⟨Db.stateOf_eq_some.mpr ⟨w', hw', hq⟩, hr⟩

theorem cancelled_step {db db' : Db} {e : Option (LifecycleOp × Time)} (h : LifecycleStep db e db')
    {id : String} (hs : db.stateOf id = some .cancelled) : db'.stateOf id = some .cancelled := by
  rcases h.lasting.stateOf hs rfl with hk | ⟨-, -, hne, -⟩
  · exact hk
  · exact absurd rfl hne

theorem completed_step {db db' : Db} {e : Option (LifecycleOp × Time)} (h : LifecycleStep db e db')
    {id : String} (hs : db.stateOf id = some .completed ∧ db.children.get? id = none) :
    db'.stateOf id = some .completed ∧ db'.children.get? id = none := by
  obtain ⟨w, hw, -⟩ := Db.stateOf_eq_some.mp hs.1
  rcases h.lasting.stateOf hs.1 rfl with hk | ⟨-, -, -, hworker⟩
  · exact ⟨hk, h.lasting.plain id w hw hs.2⟩
  · exact absurd hs.2 (hworker rfl)

/-- Over any run of the writers a cancelled Work stays cancelled, a completed Work that is no
worker stays completed, and a failed Work leaves its state only to be queued, by a step that
resumes it explicitly. -/
theorem finished_work_lasts {db db' : Db} {es : List (Option (LifecycleOp × Time))}
    (h : Run LifecycleStep db es db') (id : String) :
    (db.stateOf id = some .cancelled → db'.stateOf id = some .cancelled) ∧
    (db.stateOf id = some .completed → db.children.get? id = none →
      db'.stateOf id = some .completed) ∧
    ∀ (as bs : List (Option (LifecycleOp × Time))) (e : Option (LifecycleOp × Time)) (s t : Db),
      es = as ++ e :: bs → Run LifecycleStep db as s → LifecycleStep s e t →
      Run LifecycleStep t bs db' → s.stateOf id = some .failed →
      t.stateOf id = some .failed ∨ (t.stateOf id = some .queued ∧
        ∃ op now, e = some (op, now) ∧ op.resumes = some id) := by
  refine ⟨fun hs => ?_, fun hs hn => ?_, fun as bs e s t _ _ hstep _ hs => ?_⟩
  · have hstep (s : Db) (e : Option (LifecycleOp × Time)) (t : Db)
        (hs : s.stateOf id = some .cancelled) (hh : LifecycleStep s e t) :
        t.stateOf id = some .cancelled := cancelled_step hh hs
    have hlast := Run.invariant hstep h hs
    exact hlast
  · have hstep (s : Db) (e : Option (LifecycleOp × Time)) (t : Db)
        (hs : s.stateOf id = some .completed ∧ s.children.get? id = none)
        (hh : LifecycleStep s e t) : t.stateOf id = some .completed ∧ t.children.get? id = none :=
      completed_step hh hs
    have hlast := Run.invariant hstep h ⟨hs, hn⟩
    exact hlast.1
  · rcases hstep.lasting.stateOf hs rfl with hk | ⟨hq, hr, -⟩
    · exact .inl hk
    · obtain ⟨⟨op, now⟩, rfl, hop⟩ := Option.bind_eq_some_iff.mp hr
      exact .inr ⟨hq, op, now, rfl, hop⟩

/-- A Work that failed. -/
def failedWork : WorkRow :=
  { id := "0b7c2f5e-8c1d-4e7a-9a51-3f6d2c9be014", parentWorkId := none, conversationId := "c",
    generation := 1, sourceKey := "event:1", sourceJson := .obj [("origin", .str "user_message")],
    goal := "answer", state := .failed, created := 0, updated := 0 }

def failedDb : Db :=
  { conversations := ⟨[{ id := "c", generation := 1 }], by decide⟩
    works := ⟨[failedWork], by decide⟩ }

/-- The operator's resume queues it. -/
theorem finished_work_lasts_resumed :
    (queueAgain failedDb 5 failedWork).stateOf failedWork.id = some .queued := by
  have hstep : LifecycleStep failedDb (some (.manageWork failedWork.id 1 .resume none, 5))
      (queueAgain failedDb 5 failedWork) := .commit rfl
  rcases (finished_work_lasts (.single hstep) failedWork.id).2.2 [] [] _ _ _ rfl (.nil _) hstep
    (.nil _) rfl with h | ⟨h, -⟩
  · exact absurd h (by decide +kernel)
  · exact h

end Yuki

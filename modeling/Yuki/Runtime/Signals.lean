import Mathlib.Data.List.Forall2
import Yuki.Lib.OneShot
import Yuki.Runtime.Polling

/-! Waits as one-shot subscriptions: how the stored rows make a board of armed and
closed subscriptions, and which changes of the database are moves of it. -/

namespace Yuki

open Db OneShot WorkRepository WorkWaitRepository

/-- A condition later in its wait: a match stays, apart from a text of an older version. -/
def Condition.Grows (c d : Condition) : Prop :=
  d.kind = c.kind ∧ ∀ m, c.matched = some m → d.matched = some m ∨ d.matched = some m.dropText

@[simp] theorem Match.dropText_dropText (m : Match) : m.dropText.dropText = m.dropText := by
  cases m <;> rfl

theorem Condition.Grows.refl (c : Condition) : c.Grows c :=
  ⟨rfl, fun _ h => .inl h⟩

theorem Condition.Grows.trans {c d e : Condition} (h : c.Grows d) (h' : d.Grows e) : c.Grows e := by
  refine ⟨h'.1.trans h.1, fun m hm => ?_⟩
  rcases h.2 m hm with hd | hd
  · exact h'.2 m hd
  · rcases h'.2 _ hd with he | he
    · exact .inr he
    · exact .inr (by rw [he, Match.dropText_dropText])

/-- What an armed wait has gathered. -/
structure Progress where
  mode : WaitMode
  deadline : Option Time
  conditions : List Condition

instance : Preorder Progress where
  le p q := q.mode = p.mode ∧ q.deadline = p.deadline ∧
    List.Forall₂ Condition.Grows p.conditions q.conditions
  le_refl p := ⟨rfl, rfl, List.forall₂_same.mpr fun c _ => .refl c⟩
  le_trans p q r h h' := by
    refine ⟨h'.1.trans h.1, h'.2.1.trans h.2.1, ?_⟩
    have hpq := h.2.2
    have hqr := h'.2.2
    generalize p.conditions = a at hpq
    generalize q.conditions = b at hpq hqr
    generalize r.conditions = c at hqr
    induction hpq generalizing c with
    | nil =>
      cases hqr
      exact .nil
    | cons hd _ ih =>
      cases hqr with
      | cons hd' htl' => exact .cons (hd.trans hd') (ih _ htl')

/-- What a closed wait ended with. -/
structure WaitResult where
  status : WaitStatus
  progress : Progress

/-- The results that send a signal. -/
def WaitResult.sends (r : WaitResult) : Bool :=
  r.status == .delivered || r.status == .expired

def WaitRow.progress (w : WaitRow) : Progress :=
  ⟨w.mode, w.deadline, w.conditions⟩

def WaitRow.phase (w : WaitRow) : Phase Progress WaitResult :=
  if w.status = .active then .armed w.progress else .closed ⟨w.status, w.progress⟩

/-- Whether the wait ended with a signal. -/
def WaitRow.ended (w : WaitRow) : Bool :=
  w.status == .delivered || w.status == .expired

/-- The mailbox key of a wait's signal. -/
def signalKey (id : String) : String :=
  "wait:" ++ id

namespace Db

/-- The signals a wait has in the mailbox. -/
def signalsOf (db : Db) (id : String) : Nat :=
  db.inputs.rows.countP fun i => i.sourceKey == signalKey id

/-- The waits of the database as a board of subscriptions, owned by their Works. -/
def board (db : Db) : Board String String Progress WaitResult where
  phase id := (db.waits.get? id).map fun w => (w.workId, w.phase)
  sent := db.signalsOf

end Db

theorem WaitRow.fired_phase (w : WaitRow) : w.phase.fired WaitResult.sends = w.ended := by
  cases hs : w.status <;>
    simp [WaitRow.phase, WaitRow.ended, Phase.fired, WaitResult.sends, hs]

theorem Db.fired_board (db : Db) (id : String) :
    db.board.fired WaitResult.sends id = (db.waits.get? id).any WaitRow.ended := by
  simp only [Board.fired, Db.board]
  cases db.waits.get? id <;> simp [WaitRow.fired_phase]

/-- Every ended wait has its one signal, and no other wait has any. -/
abbrev Db.Honest (db : Db) : Prop :=
  db.board.Honest WaitResult.sends

abbrev Db.Moves (db db' : Db) : Prop :=
  Board.Moves WaitResult.progress WaitResult.sends db.board db'.board

theorem signalKey_inj {a b : String} (h : signalKey a = signalKey b) : a = b := by
  have := congrArg String.toList h
  simp only [signalKey, String.toList_append, List.append_cancel_left_eq] at this
  exact String.toList_inj.mp this

/-- What a signal rests on: met conditions, a passed deadline, or the run that called back. -/
def Founded (w : WaitRow) (reason : SignalReason) (at_ : Time) : Prop :=
  match reason with
  | .signal => w.mode.met w.conditions = true
  | .deadline => expiredAt w.deadline at_ = true
  | .requiresAction => ∃ run, awaitsRun run w.conditions = true

/-- The signal of an ended wait, as it stands in the mailbox. -/
def Db.Signalled (db : Db) (id : String) : Prop :=
  ∃ w i reason at_, db.waits.get? id = some w ∧ i ∈ db.inputs.rows ∧ i.sourceKey = signalKey id ∧
    i.workId = some w.workId ∧ i.payload = .workSignal id reason w.conditions at_ ∧
    w.status = endStatus reason ∧ Founded w reason at_

/-- The mailbox keeps its rows and gets no signal. -/
structure SameMail (db db' : Db) : Prop where
  sent : ∀ id, db'.signalsOf id = db.signalsOf id
  kept : ∀ i ∈ db.inputs.rows, ∃ j ∈ db'.inputs.rows, j.sourceKey = i.sourceKey ∧
    j.workId = i.workId ∧ j.payload = i.payload

namespace SameMail

variable {db db' db'' : Db}

theorem of_eq (h : db'.inputs = db.inputs) : SameMail db db' where
  sent id := by simp only [Db.signalsOf, h]
  kept i hi := ⟨i, by rw [h]; exact hi, rfl, rfl, rfl⟩

theorem trans (h : SameMail db db') (h' : SameMail db' db'') : SameMail db db'' where
  sent id := (h'.sent id).trans (h.sent id)
  kept i hi := by
    obtain ⟨j, hj, hk, hw, hp⟩ := h.kept i hi
    obtain ⟨k, hk', hkk, hkw, hkp⟩ := h'.kept j hj
    exact ⟨k, hk', hkk.trans hk, hkw.trans hw, hkp.trans hp⟩

/-- Rows change their state only. -/
theorem of_map {f : InputRow → InputRow} (h : db'.inputs.rows = db.inputs.rows.map f)
    (hf : ∀ i, (f i).sourceKey = i.sourceKey ∧ (f i).workId = i.workId ∧
      (f i).payload = i.payload) : SameMail db db' where
  sent id := by
    simp only [Db.signalsOf, h, List.countP_map]
    exact List.countP_congr fun i _ => by simp [(hf i).1]
  kept i hi := ⟨f i, by rw [h]; exact List.mem_map_of_mem hi, (hf i).1, (hf i).2.1, (hf i).2.2⟩

theorem insert (r : InputRow) (hr : ∀ id, r.sourceKey ≠ signalKey id) :
    SameMail db (db.insertInput r).1 := by
  rcases insertInput_rows db r with ⟨h, -⟩ | ⟨h, -⟩
  · exact .of_map (f := id) (by simp [h]) fun _ => ⟨rfl, rfl, rfl⟩
  · refine ⟨fun id => ?_, fun i hi => ⟨i, ?_, rfl, rfl, rfl⟩⟩
    · simp [Db.signalsOf, h, hr id]
    · rw [h]
      exact List.mem_append_left _ hi

end SameMail

/-- A transaction on the waits: a move of the board, whose signals stay and are founded. -/
structure Serves (db db' : Db) : Prop where
  moves : db.Honest → db.Moves db'
  kept : ∀ i ∈ db.inputs.rows, ∃ j ∈ db'.inputs.rows, j.sourceKey = i.sourceKey ∧
    j.workId = i.workId ∧ j.payload = i.payload
  signalled : db.Honest → ∀ id, (db.waits.get? id).any WaitRow.ended = false →
    (db'.waits.get? id).any WaitRow.ended = true → db'.Signalled id

namespace Serves

variable {db db' db'' : Db}

theorem refl (db : Db) : Serves db db where
  moves _ := .refl _
  kept i hi := ⟨i, hi, rfl, rfl, rfl⟩
  signalled _ id h h' := by simp [h] at h'

/-- An ended wait stays as it ended. -/
theorem ended (h : Serves db db') (hh : db.Honest) {id : String} {w : WaitRow}
    (hw : db.waits.get? id = some w) (hs : w.status ≠ .active) :
    ∃ w', db'.waits.get? id = some w' ∧ w'.workId = w.workId ∧ w'.status = w.status ∧
      w'.progress = w.progress := by
  have hphase : db.board.phase id = some (w.workId, .closed ⟨w.status, w.progress⟩) := by
    simp [Db.board, hw, WaitRow.phase, hs]
  have hclosed := (h.moves hh).closed hphase
  simp only [Db.board, Option.map_eq_some_iff, Prod.mk.injEq] at hclosed
  obtain ⟨w', hw', hwork, hp⟩ := hclosed
  unfold WaitRow.phase at hp
  split at hp
  · simp at hp
  · simp only [Phase.closed.injEq, WaitResult.mk.injEq] at hp
    exact ⟨w', hw', hwork, hp.1, hp.2⟩

theorem signalled_kept (h : Serves db db') (hh : db.Honest) {id : String}
    (hs : db.Signalled id) : db'.Signalled id := by
  obtain ⟨w, i, reason, at_, hw, hi, hkey, hwork, hpay, hstatus, hf⟩ := hs
  have hne : w.status ≠ .active := by
    rw [hstatus]
    cases reason <;> simp [endStatus]
  obtain ⟨w', hw', hwork', hstatus', hprog⟩ := h.ended hh hw hne
  obtain ⟨hmode, hdeadline, hconds⟩ : w'.mode = w.mode ∧ w'.deadline = w.deadline ∧
      w'.conditions = w.conditions := by
    simpa [WaitRow.progress] using hprog
  obtain ⟨j, hj, hjk, hjw, hjp⟩ := h.kept i hi
  refine ⟨w', j, reason, at_, hw', hj, hjk.trans hkey, ?_, ?_, hstatus'.trans hstatus, ?_⟩
  · rw [hjw, hwork, hwork']
  · rw [hjp, hpay, hconds]
  · cases reason <;> simpa only [Founded, hmode, hdeadline, hconds] using hf

theorem trans (h : Serves db db') (h' : Serves db' db'') : Serves db db'' where
  moves hh := (h.moves hh).trans (h'.moves ((h.moves hh).honest hh))
  kept i hi := by
    obtain ⟨j, hj, hk, hw, hp⟩ := h.kept i hi
    obtain ⟨k, hk', hkk, hkw, hkp⟩ := h'.kept j hj
    exact ⟨k, hk', hkk.trans hk, hkw.trans hw, hkp.trans hp⟩
  signalled hh id hn he := by
    have hh' := (h.moves hh).honest hh
    by_cases hm : (db'.waits.get? id).any WaitRow.ended = true
    · exact h'.signalled_kept hh' (h.signalled hh id hn hm)
    · exact h'.signalled hh' id (by simpa using hm) he

/-- Waits that grow, close without a signal or stay. -/
theorem of_map {g : WaitRow → WaitRow} (hmail : SameMail db db')
    (hw : ∀ k, db'.waits.get? k = (db.waits.get? k).map g)
    (hg : ∀ k w, db.waits.get? k = some w → (g w).workId = w.workId ∧
      w.phase.Leads WaitResult.progress (g w).phase ∧ (g w).ended = w.ended) : Serves db db' where
  moves _ := by
    have hfired : ∀ k, db'.board.fired WaitResult.sends k = db.board.fired WaitResult.sends k := by
      intro k
      rw [fired_board, fired_board, hw]
      cases h : db.waits.get? k with
      | none => rfl
      | some w => simp [(hg k w h).2.2]
    refine .of_old (fun k o a hk => ?_) (fun k => ?_) fun k hk => ?_
    · simp only [Db.board, Option.map_eq_some_iff, Prod.mk.injEq] at hk
      obtain ⟨w, hget, rfl, rfl⟩ := hk
      obtain ⟨hwork, hlead, -⟩ := hg k w hget
      exact ⟨(g w).phase, by simp [Db.board, hw, hget, hwork], hlead⟩
    · rw [hfired]
      simp [Db.board, hmail.sent]
    · simp only [Db.board, Option.map_eq_none_iff] at hk ⊢
      rw [hw, hk, Option.map_none]
  kept := hmail.kept
  signalled _ id hn he := by
    cases h : db.waits.get? id with
    | none => simp [hw, h] at he
    | some w => simp [hw, h, (hg id w h).2.2] at he hn; simp [he] at hn

theorem of_mail (hmail : SameMail db db') (hw : db'.waits = db.waits) : Serves db db' :=
  .of_map (g := id) hmail (fun k => by rw [hw]; simp) fun _ w _ => ⟨rfl, .refl _, rfl⟩

/-- Active waits that end without a signal. -/
theorem close {p : WaitRow → Bool} {f : WaitRow → WaitRow} (hmail : SameMail db db')
    (hw : ∀ k, db'.waits.get? k = (db.waits.get? k).map fun w => if p w = true then f w else w)
    (hp : ∀ w, p w = true → w.status = .active)
    (hf : ∀ w, (f w).workId = w.workId ∧ (f w).progress = w.progress ∧
      ((f w).status = .cancelled ∨ (f w).status = .invalidated)) : Serves db db' := by
  refine .of_map hmail hw fun k w _ => ?_
  by_cases hs : p w = true
  · rw [if_pos hs]
    obtain ⟨hwork, hprog, hend⟩ := hf w
    have hle : w.progress ≤ (f w).progress := le_of_eq hprog.symm
    refine ⟨hwork, ?_, ?_⟩
    · rcases hend with h | h <;>
        simp only [WaitRow.phase, hp w hs, h, if_true, reduceCtorEq, if_false] <;>
        exact .close hle
    · rcases hend with h | h <;> simp only [WaitRow.ended, hp w hs, h] <;> rfl
  · rw [if_neg hs]
    exact ⟨rfl, .refl _, rfl⟩

/-- A fold of such transactions. -/
theorem foldl {α : Type} {f : Db → α → Db} (h : ∀ d a, Serves d (f d a)) (xs : List α) (d : Db) :
    Serves d (xs.foldl f d) := by
  induction xs generalizing d with
  | nil => exact .refl d
  | cons x xs ih => exact (h d x).trans (ih (f d x))

end Serves

/-! The single changes. -/

theorem cancelActiveWaits_serves (db : Db) (now : Time) (workId : String) :
    Serves db (db.cancelActiveWaits now workId) :=
  .close (.of_eq rfl) (Table.get?_update _ _ _ (by intro; rfl)) (fun w hp => by simp_all)
    fun _ => ⟨rfl, rfl, .inl rfl⟩

theorem invalidate_serves (db : Db) (now : Time) (id : String) :
    Serves db (db.invalidate now id) :=
  .close (.of_eq rfl) (Table.get?_update _ _ _ (by intro; rfl)) (fun w hp => by simp_all)
    fun _ => ⟨rfl, rfl, .inr rfl⟩

theorem stopOwnedExecution_serves (db : Db) (now : Time) (identity : String)
    (reason : Option String) : Serves db (stopOwnedExecution db now identity reason) := by
  refine .close (.of_map (Table.rows_update _ _ _ (by intro; rfl)) fun i => ?_)
    (Table.get?_update _ _ _ (by intro; rfl)) (fun w hp => ?_) fun _ => ⟨rfl, rfl, .inl rfl⟩
  · split <;> exact ⟨rfl, rfl, rfl⟩
  · simp only [Bool.and_eq_true, beq_iff_eq] at hp
    exact hp.2

/-- New conditions for an active wait that keep every match of the old ones. -/
theorem updateConditions_serves {db : Db} {now : Time} {id : String} {cs : List Condition}
    (h : ∀ w, db.waits.get? id = some w → w.status = .active →
      List.Forall₂ Condition.Grows w.conditions cs) :
    Serves db (db.updateActive id fun w => { w with conditions := cs, updated := now }) := by
  refine .of_map (.of_eq rfl) (Table.get?_update _ _ _ (by intro; rfl)) fun k w hk => ?_
  by_cases hs : (w.id == id && w.status == .active) = true
  · rw [if_pos hs]
    simp only [Bool.and_eq_true, beq_iff_eq] at hs
    obtain rfl : k = id := (Table.get?_key hk).symm.trans hs.1
    refine ⟨rfl, ?_, by simp [WaitRow.ended]⟩
    simp only [WaitRow.phase, hs.2, if_true]
    exact .grow ⟨rfl, rfl, h w hk hs.2⟩
  · rw [if_neg hs]
    exact ⟨rfl, .refl _, rfl⟩

/-- A new wait of a Work without an active one. -/
theorem insertWait_serves {db db' : Db} {w : WaitRow} (h : insertWait db w = .ok db')
    (hactive : w.status = .active) : Serves db db' := by
  simp only [insertWait, bind_eq_ok, require_eq_ok, pure_eq_ok] at h
  obtain ⟨-, ⟨hfresh, -, hfree, -⟩, rfl⟩ := h
  have hnone : db.waits.get? w.id = none := Table.get?_eq_none.mpr hfresh
  have hget : ∀ k, (db.waits.insert w).get? k = (db.waits.get? k).or (if w.id = k then some w else none) :=
    fun k => Table.get?_insert _ _ _
  have hended : ∀ k, ((db.waits.insert w).get? k).any WaitRow.ended =
      (db.waits.get? k).any WaitRow.ended := by
    intro k
    rw [hget]
    by_cases hk : w.id = k
    · subst hk
      simp [hnone, WaitRow.ended, hactive]
    · simp [hk]
  refine ⟨fun _ => ?_, fun i hi => ⟨i, hi, rfl, rfl, rfl⟩, fun _ id hn he => ?_⟩
  · refine ⟨fun k o a hk => ⟨a, ?_, .refl a⟩, fun k => ?_, fun hs j k o p q hj hk => ?_⟩
    · simp only [Db.board, Option.map_eq_some_iff] at hk ⊢
      obtain ⟨v, hv, he⟩ := hk
      exact ⟨v, by rw [hget, hv, Option.some_or], he⟩
    · rw [fired_board, fired_board, hended]
      rfl
    · have hold : ∀ i r, (({ db with waits := db.waits.insert w } : Db).board.phase i) =
          some (o, .armed r) → db.board.phase i = some (o, .armed r) ∨ (i = w.id ∧ o = w.workId) := by
        intro i r hi
        simp only [Db.board, hget, Option.map_eq_some_iff, Prod.mk.injEq] at hi ⊢
        obtain ⟨v, hv, hvo, hvp⟩ := hi
        by_cases hk : w.id = i
        · subst hk
          rw [hnone, Option.none_or, if_pos rfl] at hv
          obtain rfl := Option.some.inj hv
          exact .inr ⟨rfl, hvo.symm⟩
        · simp only [hk, if_false, Option.or_none] at hv
          exact .inl ⟨v, hv, hvo, hvp⟩
      -- an armed wait of the same Work would have kept the row out
      have hclash : ∀ i r, db.board.phase i = some (w.workId, .armed r) → False := by
        intro i r hi
        simp only [Db.board, Option.map_eq_some_iff, Prod.mk.injEq] at hi
        obtain ⟨v, hv, hvo, hvp⟩ := hi
        have hact : v.status = .active := by
          unfold WaitRow.phase at hvp
          split at hvp
          · assumption
          · simp at hvp
        have : db.hasActiveWait w.workId = true := by
          simp only [hasActiveWait, List.any_eq_true, Bool.and_eq_true, beq_iff_eq]
          exact ⟨v, Table.get?_mem hv, hvo, hact⟩
        simp [hfree] at this
      rcases hold j p hj with hj' | ⟨rfl, rfl⟩ <;> rcases hold k q hk with hk' | ⟨rfl, ho⟩
      · exact hs j k o p q hj' hk'
      · subst ho
        exact absurd hj' fun h => hclash _ _ h
      · exact absurd hk' fun h => hclash _ _ h
      · rfl
  · rw [hended] at he
    simp [hn] at he

/-- The end of an active wait with a founded signal. -/
theorem deliver_serves {db : Db} {b : Binding} {o : Option Original} {cs : List Condition}
    {reason : SignalReason} {now : Time} {event : Option Int} {w : WaitRow}
    (hw : db.waits.get? b.id = some w) (hwork : w.workId = b.workId)
    (hgrows : w.status = .active → List.Forall₂ Condition.Grows w.conditions cs)
    (hf : w.status = .active → Founded { w with conditions := cs } reason now) :
    Serves db (deliver db b o cs reason now event).1 := by
  unfold deliver
  dsimp only
  split
  · exact invalidate_serves db now b.id
  split
  · exact .refl db
  rename_i hact
  have hactive : w.status = .active := by
    simp only [isActive, Bool.not_eq_false, List.any_eq_true, Bool.and_eq_true, beq_iff_eq] at hact
    obtain ⟨v, hv, hid, hs⟩ := hact
    have hv' := Table.mem_rows.mp hv
    rw [hid, hw] at hv'
    rw [Option.some.inj hv', hs]
  let ended : WaitRow :=
    { w with status := endStatus reason, conditions := cs, updated := now, delivered := some now }
  have hid := Table.get?_key hw
  have hends : ended.ended = true := by cases reason <;> rfl
  have hnot : w.ended = false := by simp [WaitRow.ended, hactive]
  have hwaits : ∀ k, (deliverActive db b cs reason now event).1.waits.get? k =
      if k = b.id then some ended else db.waits.get? k := by
    intro k
    simp only [deliverActive, wakeSignalled, insertInput_waits, endWait, updateActive,
      Table.get?_update]
    by_cases hk : k = b.id
    · subst hk
      simp [hw, hid, hactive, ended]
    · rw [if_neg hk]
      cases hg : db.waits.get? k with
      | none => rfl
      | some v =>
        have hvk := Table.get?_key hg
        simp [hvk, hk]
  -- an honest mailbox has no signal of an active wait, so this one is inserted
  have hrows : db.Honest → (deliverActive db b cs reason now event).1.inputs.rows =
      db.inputs.rows ++ [{ signalInput b cs reason now event with
        id := (endWait db now b.id cs reason).nextInput }] := by
    intro hh
    have hzero := hh b.id
    rw [fired_board, hw, Option.any_some, hnot] at hzero
    have hzero : db.signalsOf b.id = 0 := hzero
    simp only [Db.signalsOf, List.countP_eq_zero, beq_iff_eq] at hzero
    rcases insertInput_rows (endWait db now b.id cs reason) (signalInput b cs reason now event)
      with ⟨-, i, hi, hk⟩ | ⟨h, -⟩
    · exact absurd hk (hzero i hi)
    · exact h
  refine ⟨fun hh => ?_, fun i hi => ?_, fun hh id hn he => ?_⟩
  · refine .of_old (fun k ow a hk => ?_) (fun k => ?_) fun k hk => ?_
    · simp only [Db.board, Option.map_eq_some_iff, Prod.mk.injEq] at hk ⊢
      obtain ⟨v, hv, rfl, rfl⟩ := hk
      rw [hwaits]
      by_cases hkb : k = b.id
      · subst hkb
        obtain rfl := Option.some.inj (hw.symm.trans hv)
        refine ⟨ended.phase, ⟨ended, by simp, rfl, rfl⟩, ?_⟩
        have hp : ended.phase = .closed ⟨endStatus reason, ended.progress⟩ := by
          cases reason <;> rfl
        rw [hp, WaitRow.phase, if_pos hactive]
        exact .close ⟨rfl, rfl, hgrows hactive⟩
      · exact ⟨v.phase, ⟨v, by rw [if_neg hkb, hv], rfl, rfl⟩, .refl _⟩
    · rw [fired_board, fired_board, hwaits]
      have hcount : (deliverActive db b cs reason now event).1.signalsOf k =
          db.signalsOf k + if k = b.id then 1 else 0 := by
        simp only [Db.signalsOf, hrows hh, List.countP_append, List.countP_singleton]
        by_cases hkb : k = b.id
        · simp [signalInput, signalKey, hkb]
        · have hne : signalKey b.id ≠ signalKey k := fun e => hkb (signalKey_inj e).symm
          simp [signalInput, hkb, show "wait:" ++ b.id ≠ signalKey k from hne]
      show (deliverActive db b cs reason now event).1.signalsOf k + _ = db.signalsOf k + _
      rw [hcount]
      by_cases hkb : k = b.id
      · simp [hkb, hw, hnot, hends]
      · simp [hkb]
    · simp only [Db.board, Option.map_eq_none_iff] at hk ⊢
      rw [hwaits]
      by_cases hkb : k = b.id
      · rw [hkb, hw] at hk
        simp at hk
      · rw [if_neg hkb, hk]
  · have hmem : i ∈ (deliverActive db b cs reason now event).1.inputs.rows := by
      rcases insertInput_rows (endWait db now b.id cs reason) (signalInput b cs reason now event)
        with ⟨h, -⟩ | ⟨h, -⟩
      · exact h ▸ hi
      · exact h ▸ List.mem_append_left _ hi
    exact ⟨i, hmem, rfl, rfl, rfl⟩
  · rw [hwaits] at he
    by_cases hkb : id = b.id
    · subst hkb
      refine ⟨ended, _, reason, now, by rw [hwaits, if_pos rfl],
        by rw [hrows hh]; exact List.mem_append_right _ (List.mem_singleton_self _), rfl, ?_, rfl, rfl, ?_⟩
      · exact congrArg some hwork.symm
      · have hf' := hf hactive
        cases reason <;> exact hf'
    · rw [if_neg hkb] at he
      simp [hn] at he

end Yuki

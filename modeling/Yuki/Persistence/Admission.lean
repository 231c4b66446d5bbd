import Yuki.Lib.Transition
import Yuki.Persistence.Outcome

/-! Writers of one database that take turns, with readers, new connections and
the shutdown in between. -/

namespace Yuki.Persistence

/-- A session of a writer. -/
inductive Stage
  | waiting
  | abandoned
  | refused
  | opening
  /-- The body has begun and the session is not over. -/
  | active
  | finished (ops : Operations)

inductive Holder
  | session (i : Nat)
  | shutdown
deriving DecidableEq, Repr

/-- A database, with the hints published so far. -/
structure Database where
  sessions : List Stage := []
  writer : Option Holder := none
  writerFailure : Option Raised := none
  closed : Bool := false
  hints : Nat := 0

def Database.writerAvailable (w : Database) : Bool :=
  !w.closed && w.writerFailure.isNone

/-- The transaction begins and the body with it. -/
def Operations.begins (ops : Operations) : Bool :=
  ops.connection.attempt.passes &&
    (directAttempt (if ops.sqlite then ops.beginImmediate else .ok ())).passes

inductive WriterAction
  | request
  | abandon (i : Nat)
  | grant (i : Nat)
  | start (i : Nat)
  | finish (i : Nat) (ops : Operations)
  | read (ops : ReadOperations)
  | connect (ops : ConnectOperations)
  | shut
  | dispose

def Stage.isWaiting : Stage → Bool
  | .waiting => true
  | _ => false

def Stage.isOpening : Stage → Bool
  | .opening => true
  | _ => false

def Stage.isActive : Stage → Bool
  | .active => true
  | _ => false

def Stage.returned : Stage → Bool
  | .finished ops => ops.commitReturned
  | _ => false

/-- The stage in which a session with these operations comes to its end. -/
def Operations.endsAt (ops : Operations) (s : Stage) : Bool :=
  if ops.begins then s.isActive else s.isOpening

def Database.set (w : Database) (i : Nat) (stage : Stage) : Database :=
  { w with sessions := w.sessions.set i stage }

/-- One step of a session, up to where it next awaits another, or a write of the writer's failure. -/
def Database.act (w : Database) : WriterAction → Option Database
  | .request => some { w with sessions := w.sessions ++ [.waiting] }
  | .abandon i => if w.sessions[i]?.any (·.isWaiting) then some (w.set i .abandoned) else none
  | .grant i =>
    if w.sessions[i]?.any (·.isWaiting) ∧ w.writer = none then
      if w.writerAvailable then some { w.set i .opening with writer := some (.session i) }
      else some (w.set i .refused)
    else none
  | .start i => if w.sessions[i]?.any (·.isOpening) then some (w.set i .active) else none
  | .finish i ops =>
    if w.sessions[i]?.any ops.endsAt then
      let out := immediateSession ops
      some { w.set i (.finished ops) with
        writer := none
        writerFailure := out.writerFailure <|> w.writerFailure
        hints := w.hints + out.published.toNat }
    else none
  | .read ops => some { w with writerFailure := (readSession ops).2 <|> w.writerFailure }
  | .connect ops => some { w with writerFailure := (connectSqlite ops).2 <|> w.writerFailure }
  | .shut => if w.writer = none then some { w with closed := true, writer := some .shutdown } else none
  | .dispose => if w.writer = some .shutdown then some { w with writer := none } else none

def WriterStep (w : Database) (a : WriterAction) (w' : Database) : Prop :=
  w.act a = some w'

/-! Connections that are not shown to have stopped. -/

def ReadOperations.unstopped (ops : ReadOperations) : Bool :=
  ops.driver && ops.physicalExit.any (·.fails)

def ConnectOperations.unstopped (ops : ConnectOperations) : Bool :=
  !(ops.opening.attempt.passes && ops.loadVec1.attempt.passes) && ops.stop.any (·.fails)

def WriterAction.unstopped : WriterAction → Bool
  | .finish _ ops => ops.unstopped
  | .read ops => ops.unstopped
  | .connect ops => ops.unstopped
  | _ => false

theorem readSession_failure (ops : ReadOperations) :
    (readSession ops).2.isSome = ops.unstopped := by
  unfold readSession ReadOperations.release ReadOperations.unstopped
  dsimp only
  cases ops.driver with
  | false => rfl
  | true =>
    cases ops.physicalExit with
    | none => rfl
    | some stopped =>
      cases hf : stopped.fails with
      | true =>
        obtain ⟨cleanup, hc, -⟩ := Awaited.complete_error hf
        simp [hc, hf]
      | false =>
        obtain ⟨v, -, hc⟩ := Awaited.complete_ok hf
        simp [hc, hf]

theorem connectSqlite_failure (ops : ConnectOperations) :
    (connectSqlite ops).2.isSome = ops.unstopped := by
  have hconnect : (∃ error, ops.connect = .error error) ↔
      (ops.opening.attempt.passes && ops.loadVec1.attempt.passes) = false := by
    unfold ConnectOperations.connect
    rcases ops.opening.complete_cases with ⟨ha, v, hc⟩ | ⟨ha, v, hc⟩ | ⟨ha, e, hc, -⟩
    · rw [hc, ha]
      rcases ops.loadVec1.complete_cases with ⟨hb, v, hc⟩ | ⟨hb, v, hc⟩ | ⟨hb, e, hc, -⟩
      · rw [hc, hb]
        exact ⟨nofun, nofun⟩
      · rw [hc, hb]
        exact ⟨fun _ => rfl, fun _ => ⟨_, rfl⟩⟩
      · rw [hc, hb]
        exact ⟨fun _ => rfl, fun _ => ⟨_, rfl⟩⟩
    · rw [hc, ha]
      exact ⟨fun _ => rfl, fun _ => ⟨_, rfl⟩⟩
    · rw [hc, ha]
      exact ⟨fun _ => rfl, fun _ => ⟨_, rfl⟩⟩
  unfold connectSqlite ConnectOperations.unstopped
  cases hr : ops.connect with
  | ok u =>
    have hpass : (ops.opening.attempt.passes && ops.loadVec1.attempt.passes) = true := by
      by_contra hno
      obtain ⟨error, he⟩ := hconnect.mpr (eq_false_of_ne_true hno)
      rw [hr] at he
      cases he
    rw [hpass]
    rfl
  | error error =>
    rw [hconnect.mp ⟨error, hr⟩]
    cases ops.stop with
    | none => rfl
    | some stopped =>
      cases hf : stopped.fails with
      | true =>
        obtain ⟨cleanup, hc, -⟩ := Awaited.complete_error hf
        simp [hc, hf]
      | false =>
        obtain ⟨v, -, hc⟩ := Awaited.complete_ok hf
        simp [hc, hf]

/-! Any interleaving. -/

variable {w w' : Database} {a : WriterAction} {as : List WriterAction} {i : Nat} {s : Stage}

/-- The session has the writer. -/
def Stage.holds (s : Stage) : Bool :=
  s.isOpening || s.isActive

theorem any_some {p : Stage → Bool} (h : w.sessions[i]?.any p = true) :
    ∃ s, w.sessions[i]? = some s ∧ p s = true := by
  cases hs : w.sessions[i]? with
  | none =>
    rw [hs] at h
    cases h
  | some s =>
    rw [hs] at h
    exact ⟨s, rfl, h⟩

theorem holds_of_endsAt {ops : Operations} (h : ops.endsAt s = true) : s.holds = true := by
  unfold Operations.endsAt at h
  unfold Stage.holds
  split at h
  · rw [h, Bool.or_true]
  · rw [h, Bool.true_or]

theorem Stage.not_returned (h : s.isWaiting = true ∨ s.holds = true) : s.returned = false := by
  cases s with
  | finished ops => rcases h with h | h <;> cases h
  | _ => rfl

/-- What a step does: it appends a session that waits, moves one session on, or touches none. -/
inductive Moved (w : Database) (a : WriterAction) (w' : Database) : Prop
  | appended (h : w'.sessions = w.sessions ++ [.waiting]) (hw : w'.writer = w.writer)
      (hh : w'.hints = w.hints)
  | left (i : Nat) (s s' : Stage) (hi : w.sessions[i]? = some s) (hs : s.isWaiting = true)
      (h : w'.sessions = w.sessions.set i s') (hs' : s'.holds = false) (hr : s'.returned = false)
      (hw : w'.writer = w.writer) (hh : w'.hints = w.hints)
  | admitted (i : Nat) (s : Stage) (hi : w.sessions[i]? = some s) (hs : s.isWaiting = true)
      (hfree : w.writer = none) (havailable : w.writerAvailable = true)
      (h : w'.sessions = w.sessions.set i .opening) (hw : w'.writer = some (.session i))
      (hh : w'.hints = w.hints)
  | started (i : Nat) (s : Stage) (hi : w.sessions[i]? = some s) (hs : s.holds = true)
      (h : w'.sessions = w.sessions.set i .active) (hw : w'.writer = w.writer)
      (hh : w'.hints = w.hints)
  | ended (i : Nat) (s : Stage) (ops : Operations) (hi : w.sessions[i]? = some s)
      (hs : s.holds = true) (h : w'.sessions = w.sessions.set i (.finished ops))
      (hw : w'.writer = none) (hh : w'.hints = w.hints + ops.commitReturned.toNat)
  | untouched (h : w'.sessions = w.sessions) (hw : w'.writer = w.writer ∨
      ∀ i, w.writer ≠ some (.session i)) (hh : w'.hints = w.hints)

theorem moved (h : WriterStep w a w') : Moved w a w' := by
  unfold WriterStep Database.act at h
  cases a with
  | request =>
    obtain rfl := Option.some.inj h
    exact .appended rfl rfl rfl
  | abandon i =>
    dsimp only at h
    split at h
    · next hs =>
      obtain ⟨s, hi, hs⟩ := any_some hs
      obtain rfl := Option.some.inj h
      exact .left i s .abandoned hi hs rfl rfl rfl rfl rfl
    · cases h
  | grant i =>
    dsimp only at h
    split at h
    · next hs =>
      obtain ⟨hs, hfree⟩ := hs
      obtain ⟨s, hi, hs⟩ := any_some hs
      split at h
      · next havailable =>
        obtain rfl := Option.some.inj h
        exact .admitted i s hi hs hfree havailable rfl rfl rfl
      · obtain rfl := Option.some.inj h
        exact .left i s .refused hi hs rfl rfl rfl rfl rfl
    · cases h
  | start i =>
    dsimp only at h
    split at h
    · next hs =>
      obtain ⟨s, hi, hs⟩ := any_some hs
      obtain rfl := Option.some.inj h
      exact .started i s hi (by rw [Stage.holds, hs]; rfl) rfl rfl rfl
    · cases h
  | finish i ops =>
    dsimp only at h
    split at h
    · next hs =>
      obtain ⟨s, hi, hs⟩ := any_some hs
      obtain rfl := Option.some.inj h
      refine .ended i s ops hi (holds_of_endsAt hs) rfl rfl ?_
      rw [published_eq]
    · cases h
  | read ops =>
    obtain rfl := Option.some.inj h
    exact .untouched rfl (Or.inl rfl) rfl
  | connect ops =>
    obtain rfl := Option.some.inj h
    exact .untouched rfl (Or.inl rfl) rfl
  | shut =>
    dsimp only at h
    split at h
    · next hfree =>
      obtain rfl := Option.some.inj h
      exact .untouched rfl (Or.inr fun i hi => by rw [hfree] at hi; cases hi) rfl
    · cases h
  | dispose =>
    dsimp only at h
    split at h
    · next hshut =>
      obtain rfl := Option.some.inj h
      exact .untouched rfl (Or.inr fun i hi => by rw [hshut] at hi; cases hi) rfl
    · cases h

/-- The lock's holder is the one session that is open, and the hints are those of the commits that
returned. -/
structure Database.Inv (w : Database) : Prop where
  holder : ∀ i s, w.sessions[i]? = some s → s.holds = true → w.writer = some (.session i)
  hints : w.hints = w.sessions.countP (·.returned)

theorem Database.Inv.free (h : w.Inv) (hfree : ∀ i, w.writer ≠ some (.session i)) {s : Stage}
    (hi : w.sessions[i]? = some s) : s.holds = false := by
  by_contra hs
  exact hfree i (h.holder i s hi (eq_true_of_ne_false hs))

theorem getElem?_set_cases {l : List Stage} {j : Nat} {t : Stage} (h : (l.set i s)[j]? = some t) :
    (j = i ∧ t = s) ∨ (j ≠ i ∧ l[j]? = some t) := by
  rw [List.getElem?_set] at h
  split at h
  · next he =>
    split at h
    · exact Or.inl ⟨he.symm, (Option.some.inj h).symm⟩
    · cases h
  · next hne => exact Or.inr ⟨fun he => hne he.symm, h⟩

theorem getElem?_concat_cases {l : List Stage} {j : Nat} {t : Stage}
    (h : (l ++ [s])[j]? = some t) : l[j]? = some t ∨ t = s := by
  rw [List.getElem?_append] at h
  split at h
  · exact Or.inl h
  · exact Or.inr (List.mem_singleton.mp (List.mem_of_getElem? h))

theorem countP_set_returned {l : List Stage} {t : Stage} (hi : l[i]? = some s)
    (hs : s.returned = false) :
    (l.set i t).countP (·.returned) = l.countP (·.returned) + t.returned.toNat := by
  obtain ⟨hlt, hget⟩ := List.getElem?_eq_some_iff.mp hi
  rw [List.countP_set hlt, hget, hs]
  cases t.returned <;> rfl

theorem Database.Inv.step (h : w.Inv) (hs : WriterStep w a w') : w'.Inv := by
  cases moved hs with
  | appended hsessions hw hh =>
    refine ⟨fun j t hj ht => ?_, ?_⟩
    · rw [hsessions] at hj
      rcases getElem?_concat_cases hj with hj | rfl
      · rw [hw]
        exact h.holder j t hj ht
      · cases ht
    · rw [hsessions, hh, h.hints, List.countP_append]
      rfl
  | left i s s' hi hwait hsessions hs' hr hw hh =>
    refine ⟨fun j t hj ht => ?_, ?_⟩
    · rw [hsessions] at hj
      rcases getElem?_set_cases hj with ⟨-, rfl⟩ | ⟨-, hj⟩
      · rw [hs'] at ht
        cases ht
      · rw [hw]
        exact h.holder j t hj ht
    · rw [hsessions, hh, countP_set_returned hi (Stage.not_returned (Or.inl hwait)), hr]
      exact h.hints
  | admitted i s hi hwait hfree havailable hsessions hw hh =>
    refine ⟨fun j t hj ht => ?_, ?_⟩
    · rw [hsessions] at hj
      rcases getElem?_set_cases hj with ⟨rfl, rfl⟩ | ⟨-, hj⟩
      · exact hw
      · rw [h.free (by rw [hfree]; exact nofun) hj] at ht
        cases ht
    · rw [hsessions, hh, countP_set_returned hi (Stage.not_returned (Or.inl hwait))]
      exact h.hints
  | started i s hi hholds hsessions hw hh =>
    refine ⟨fun j t hj ht => ?_, ?_⟩
    · rw [hsessions] at hj
      rw [hw]
      rcases getElem?_set_cases hj with ⟨rfl, -⟩ | ⟨-, hj⟩
      · exact h.holder j s hi hholds
      · exact h.holder j t hj ht
    · rw [hsessions, hh, countP_set_returned hi (Stage.not_returned (Or.inr hholds))]
      exact h.hints
  | ended i s ops hi hholds hsessions hw hh =>
    refine ⟨fun j t hj ht => ?_, ?_⟩
    · rw [hsessions] at hj
      rcases getElem?_set_cases hj with ⟨-, rfl⟩ | ⟨hne, hj⟩
      · cases ht
      · have hi' := h.holder i s hi hholds
        rw [h.holder j t hj ht] at hi'
        exact absurd (Holder.session.inj (Option.some.inj hi')) hne
    · rw [hsessions, hh, countP_set_returned hi (Stage.not_returned (Or.inr hholds)), h.hints]
      rfl
  | untouched hsessions hw hh =>
    refine ⟨fun j t hj ht => ?_, ?_⟩
    · rw [hsessions] at hj
      rcases hw with hw | hfree
      · rw [hw]
        exact h.holder j t hj ht
      · rw [h.free hfree hj] at ht
        cases ht
    · rw [hsessions, hh]
      exact h.hints

theorem orElse_isSome {α : Type} (x y : Option α) : (x <|> y).isSome = (x.isSome || y.isSome) := by
  cases x <;> rfl

/-- The writer's failure stays, and is set where a connection is not shown to have stopped. -/
theorem failure_step (hs : WriterStep w a w') :
    (w.writerFailure.isSome = true ∨ a.unstopped = true) → w'.writerFailure.isSome = true := by
  unfold WriterStep Database.act at hs
  have hkeep : ∀ {v : Database}, w.writerFailure = v.writerFailure → a.unstopped = false →
      (w.writerFailure.isSome = true ∨ a.unstopped = true) → v.writerFailure.isSome = true := by
    rintro v hv hno (hf | hu)
    · exact hv ▸ hf
    · rw [hno] at hu
      cases hu
  have hset : ∀ {x : Option Raised}, x.isSome = a.unstopped →
      (w.writerFailure.isSome = true ∨ a.unstopped = true) →
        (x <|> w.writerFailure).isSome = true := by
    intro x hx hor
    rw [orElse_isSome, hx, Bool.or_eq_true_iff]
    exact hor.symm
  cases a with
  | request =>
    obtain rfl := Option.some.inj hs
    exact hkeep rfl rfl
  | abandon i =>
    dsimp only at hs
    split at hs
    · obtain rfl := Option.some.inj hs
      exact hkeep rfl rfl
    · cases hs
  | grant i =>
    dsimp only at hs
    split at hs
    · split at hs
      · obtain rfl := Option.some.inj hs
        exact hkeep rfl rfl
      · obtain rfl := Option.some.inj hs
        exact hkeep rfl rfl
    · cases hs
  | start i =>
    dsimp only at hs
    split at hs
    · obtain rfl := Option.some.inj hs
      exact hkeep rfl rfl
    · cases hs
  | finish i ops =>
    dsimp only at hs
    split at hs
    · obtain rfl := Option.some.inj hs
      exact hset (writerFailure_eq ops)
    · cases hs
  | read ops =>
    obtain rfl := Option.some.inj hs
    exact hset (readSession_failure ops)
  | connect ops =>
    obtain rfl := Option.some.inj hs
    exact hset (connectSqlite_failure ops)
  | shut =>
    dsimp only at hs
    split at hs
    · obtain rfl := Option.some.inj hs
      exact hkeep rfl rfl
    · cases hs
  | dispose =>
    dsimp only at hs
    split at hs
    · obtain rfl := Option.some.inj hs
      exact hkeep rfl rfl
    · cases hs

theorem failure_run (hr : Run WriterStep w as w')
    (h : w.writerFailure.isSome = true ∨ ∃ a ∈ as, a.unstopped = true) :
    w'.writerFailure.isSome = true := by
  induction hr with
  | nil w => exact h.resolve_right fun ⟨a, ha, _⟩ => nomatch ha
  | @cons u v w a as hs _ ih =>
    refine ih ?_
    rcases h with hf | ⟨b, hb, hu⟩
    · exact Or.inl (failure_step hs (Or.inl hf))
    · rcases List.mem_cons.mp hb with rfl | hb
      · exact Or.inl (failure_step hs (Or.inr hu))
      · exact Or.inr ⟨b, hb, hu⟩

/-- Without the writer, no session comes to hold it. -/
theorem holds_of_step (hs : WriterStep w a w') (hf : w.writerFailure.isSome = true) {t : Stage}
    (hi : w'.sessions[i]? = some t) (ht : t.holds = true) :
    ∃ s, w.sessions[i]? = some s ∧ s.holds = true := by
  cases moved hs with
  | appended hsessions hw hh =>
    rw [hsessions] at hi
    rcases getElem?_concat_cases hi with hi | rfl
    · exact ⟨t, hi, ht⟩
    · cases ht
  | left j s s' hj hwait hsessions hs' hr hw hh =>
    rw [hsessions] at hi
    rcases getElem?_set_cases hi with ⟨-, rfl⟩ | ⟨-, hi⟩
    · rw [hs'] at ht
      cases ht
    · exact ⟨t, hi, ht⟩
  | admitted j s hj hwait hfree havailable hsessions hw hh =>
    unfold Database.writerAvailable at havailable
    rw [Option.isSome_iff_ne_none] at hf
    simp only [Bool.and_eq_true, Option.isNone_iff_eq_none] at havailable
    exact absurd havailable.2 hf
  | started j s hj hholds hsessions hw hh =>
    rw [hsessions] at hi
    rcases getElem?_set_cases hi with ⟨rfl, -⟩ | ⟨-, hi⟩
    · exact ⟨s, hj, hholds⟩
    · exact ⟨t, hi, ht⟩
  | ended j s ops hj hholds hsessions hw hh =>
    rw [hsessions] at hi
    rcases getElem?_set_cases hi with ⟨-, rfl⟩ | ⟨-, hi⟩
    · cases ht
    · exact ⟨t, hi, ht⟩
  | untouched hsessions hw hh =>
    rw [hsessions] at hi
    exact ⟨t, hi, ht⟩

/-- One writer at a time, none after a connection that is not shown to have stopped, and a hint for
each commit that returned. -/
structure Database.Orderly (w : Database) (as : List WriterAction) : Prop where
  exclusive : ∀ (i j : Nat) (s t : Stage), w.sessions[i]? = some s → w.sessions[j]? = some t →
    s.holds = true → t.holds = true → i = j
  stopped : (∃ a ∈ as, a.unstopped = true) → ∀ a w', WriterStep w a w' → ∀ (i : Nat) (t : Stage),
    w'.sessions[i]? = some t → t.holds = true → ∃ s : Stage, w.sessions[i]? = some s ∧ s.holds = true
  hints : w.hints = w.sessions.countP (·.returned)

/-- Every session that ended reported what became of its transaction. -/
def Database.Truthful (w : Database) : Prop :=
  ∀ ops, Stage.finished ops ∈ w.sessions → ops.Reported (immediateSession ops)

/-- Any run is orderly, and truthful exactly when the operations of its sessions are clear. -/
theorem writes_reported_iff (hr : Run WriterStep {} as w) :
    w.Orderly as ∧ (w.Truthful ↔ ∀ ops, Stage.finished ops ∈ w.sessions → ops.Clear) := by
  have hstart : ({} : Database).Inv := by
    refine ⟨fun i s hi _ => ?_, rfl⟩
    cases hi
  have hinv : w.Inv := hr.invariant (fun _ _ _ h hs => h.step hs) hstart
  refine ⟨⟨fun i j s t hi hj hs ht => ?_, fun hstop a w' hs i t => ?_, hinv.hints⟩, ?_⟩
  · have hwriter := hinv.holder i s hi hs
    rw [hinv.holder j t hj ht] at hwriter
    exact (Holder.session.inj (Option.some.inj hwriter)).symm
  · exact holds_of_step hs (failure_run hr (Or.inr hstop))
  · exact forall_congr' fun ops => imp_congr_right fun _ => reported_iff ops

/-! A write that fails while its caller is cancelled. -/

def done : Awaited Unit where
  result := .ok ()

/-- The body raises, and the rollback is cancelled and then fails. -/
def cancelledRollback : Operations where
  connection := { result := .ok true }
  beginImmediate := .ok ()
  body := .error ⟨{ typeName := "ValueError" }, []⟩
  flush := done
  commit := done
  rollback := { result := .error ⟨{ typeName := "RuntimeError" }, []⟩, cancellations := 1 }
  invalidate := done
  close := done
  physicalExit := some done
  stop := done

/-- The body succeeds, and the commit is cancelled. -/
def cancelledCommit : Operations where
  connection := { result := .ok true }
  beginImmediate := .ok ()
  body := .ok ()
  flush := done
  commit := { done with cancellations := 2 }
  rollback := done
  invalidate := done
  close := done
  stop := done

theorem writes_reported_iff_sample :
    ∃ w, Run WriterStep {} [.request, .grant 0, .start 0, .finish 0 cancelledCommit] w ∧
      w.hints = 1 ∧ w.Truthful := by
  have hrun : ∃ w, Run WriterStep {} [.request, .grant 0, .start 0, .finish 0 cancelledCommit] w ∧
      w.hints = 1 ∧ w.sessions = [.finished cancelledCommit] :=
    ⟨_, .cons rfl (.cons rfl (.cons rfl (.cons rfl (.nil _)))), rfl, rfl⟩
  obtain ⟨w, hr, hhints, hsessions⟩ := hrun
  refine ⟨w, hr, hhints, (writes_reported_iff hr).2.mpr fun ops hops => ?_⟩
  rw [hsessions] at hops
  obtain rfl := Stage.finished.inj (List.mem_singleton.mp hops)
  refine ⟨fun h => ?_, fun h => ?_, fun _ e he => ?_⟩
  · exact Or.inr (Or.inl ⟨rfl, rfl⟩)
  · cases h
  · cases he

/-- The cancellation of a rollback that fails is lost: the body's error leaves the session. -/
theorem rollback_cancellation_lost :
    ∃ w, Run WriterStep {} [.request, .grant 0, .start 0, .finish 0 cancelledRollback] w ∧
      cancelledRollback.received = true ∧
      (immediateSession cancelledRollback).raised.map (·.typeName) = some "ValueError" ∧
      ¬ w.Truthful := by
  refine ⟨_, .cons rfl (.cons rfl (.cons rfl (.cons rfl (.nil _)))), rfl, rfl, fun h => ?_⟩
  obtain ⟨e, he, hcancelled⟩ := (h cancelledRollback (List.mem_singleton_self _)).cancelled rfl
  obtain rfl := Option.some.inj he
  cases hcancelled

end Yuki.Persistence

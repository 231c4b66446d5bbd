import Yuki.Persistence.Writer

/-! When the error that leaves a writer's session tells the truth about its
transaction, and when a cancellation gets lost. -/

namespace Yuki.Persistence

/-! What the operations do, whatever the session makes of it. -/

/-- An await of the transaction: whether the caller is cancelled there, and whether the session
goes on to the next. -/
structure Attempt where
  cancelled : Bool
  passes : Bool

def Awaited.attempt {α : Type} (a : Awaited α) : Attempt :=
  ⟨a.cancelled, !a.fails && !a.cancelled⟩

/-- An await without `_complete` raises the cancellation itself, or an error caused by it. -/
def directAttempt : Except Failure Unit → Attempt
  | .ok () => ⟨false, true⟩
  | .error error => ⟨error.cancellation.isSome, false⟩

/-- The awaits that the session comes to. -/
def reached : List Attempt → List Attempt
  | [] => []
  | a :: as => a :: if a.passes then reached as else []

namespace Operations

variable (ops : Operations)

/-- The awaits before the commit. -/
def attempts : List Attempt :=
  [ops.connection.attempt, directAttempt (if ops.sqlite then ops.beginImmediate else .ok ()),
    directAttempt ops.body, ops.flush.attempt]

def reachesCommit : Bool :=
  ops.attempts.all (·.passes)

def commitReturned : Bool :=
  ops.reachesCommit && !ops.commit.fails

/-- The driver's commit takes effect. -/
def took : Bool :=
  ops.reachesCommit && (!ops.commit.fails || ops.acknowledgementLost)

/-- The operations of the cleanup that the session comes to. -/
def cleanups : List (Awaited Unit) :=
  (if ops.commitReturned then []
    else ops.rollback :: if ops.rollback.fails then [ops.invalidate] else []) ++
  ops.close :: if ops.driver then
      if ops.close.fails then [ops.stop] else ops.physicalExit.toList
    else []

/-- A cancellation reaches the session. -/
def received : Bool :=
  (reached (ops.attempts ++ [ops.commit.attempt])).any (·.cancelled) ||
    ops.cleanups.any (·.cancelled)

/-- The connection is not shown to have stopped. -/
def unstopped : Bool :=
  if ops.driver then (if ops.close.fails then some ops.stop else ops.physicalExit).any (·.fails)
  else ops.close.fails

/-- The exception that ends the transaction. -/
def original : Option Failure :=
  match ops.transact with
  | .ok _ => none
  | .error (_, error) => some error

end Operations

/-- A cleanup that is cancelled and succeeds keeps the cancellation. -/
def Awaited.keeps {α : Type} (a : Awaited α) : Bool :=
  a.cancelled && !a.fails

/-- The exception of the transaction, or the one behind it, that leaves the session, and whether
it is the exception itself. -/
def Operations.leaving (ops : Operations) (error : Failure) : Option (Raised × Bool) :=
  match error.cancellation with
  | some .original => some (error.head, true)
  | some (.other cancellation) => some (cancellation, false)
  | none => if ops.cleanups.any (·.keeps) then none else some (error.head, true)

/-- What the exception says of the outcome by the notes it came with, and by the rollback. -/
def Operations.verdict (ops : Operations) (error : Raised) (itself : Bool) : Option Bool :=
  writeFailureCommitted
    (if itself && !ops.rollback.fails then error.addNote "database_rollback:confirmed" else error)

/-- No cleanup loses the only cancellation, and the exception that leaves the session does not
come with the notes of another transaction that ended otherwise. -/
structure Operations.Clear (ops : Operations) : Prop where
  cancellation : (∃ a ∈ ops.cleanups, a.cancelled = true ∧ a.fails = true) →
    (∃ error ∈ ops.original, error.cancellation.isSome = true) ∨
    (ops.commitReturned = true ∧ ops.commit.cancelled = true) ∨ ∃ a ∈ ops.cleanups, a.keeps = true
  committed : ops.took = false → ∀ error ∈ ops.original, ∀ x ∈ ops.leaving error,
    writeFailureCommitted x.1 ≠ some true
  discarded : ops.took = true → ∀ error ∈ ops.original, ∀ x ∈ ops.leaving error,
    ops.verdict x.1 x.2 ≠ some false

/-- The reported outcome is the actual one. -/
structure Operations.Reported (ops : Operations) (out : WriteOutcome) : Prop where
  committed : ∀ error ∈ out.raised, writeFailureCommitted error = some true → ops.took = true
  discarded : ∀ error ∈ out.raised, writeFailureCommitted error = some false → ops.took = false
  retryable : ∀ error ∈ out.raised, writeFailureRetryable error = true → ops.took = false
  published : out.published = true ↔ ops.commitReturned = true
  cancelled : ops.received = true → ∃ error ∈ out.raised, error.cancelled = true

/-! Notes. -/

section

variable {error : Raised} {notes : List String}

/-- A note that confirms no outcome. -/
def Silent (note : String) : Prop :=
  note ≠ "database_commit:confirmed" ∧ note ≠ "database_rollback:confirmed"

theorem Silent.of_head {note : String} (h : note.toList.head? ≠ some 'd') : Silent note := by
  constructor
  · rintro rfl
    exact h rfl
  · rintro rfl
    exact h rfl

theorem silent_rollbackFailed (name : String) : Silent ("rollback_failed:" ++ name) := by
  refine .of_head ?_
  rw [String.toList_append]
  exact fun h => absurd (Option.some.inj h) (by decide)

theorem silent_invalidationFailed (name : String) : Silent ("invalidation_failed:" ++ name) := by
  refine .of_head ?_
  rw [String.toList_append]
  exact fun h => absurd (Option.some.inj h) (by decide)

theorem WritePhase.silent (p : WritePhase) : Silent p.note := by
  cases p <;> exact ⟨by decide, by decide⟩

theorem WritePhase.afterPrefix?_note (phase : WritePhase) :
    afterPrefix? "database_write_phase:" phase.note = some phase.name := by
  cases phase <;> decide

/-- A phase in which the transaction cannot have committed. -/
def phaseEarly (notes : List String) : Bool :=
  (notes.findSome? (afterPrefix? "database_write_phase:")).any fun phase =>
    decide (phase ∈ ["begin", "execute", "flush"])

theorem writeFailureCommitted_eq_true :
    writeFailureCommitted error = some true ↔ "database_commit:confirmed" ∈ error.notes := by
  unfold writeFailureCommitted
  split
  · next h => exact ⟨fun _ => h, fun _ => rfl⟩
  · next h =>
    refine ⟨fun hs => ?_, fun hc => absurd hc h⟩
    split at hs <;> cases hs

theorem writeFailureCommitted_eq_false :
    writeFailureCommitted error = some false ↔ "database_commit:confirmed" ∉ error.notes ∧
      phaseEarly error.notes = true ∧ "database_rollback:confirmed" ∈ error.notes := by
  unfold writeFailureCommitted
  split
  · next h => exact ⟨nofun, fun hs => absurd h hs.1⟩
  · next h =>
    constructor
    · intro hs
      split at hs
      · next hr => exact ⟨h, hr⟩
      · cases hs
    · rintro ⟨-, hr⟩
      exact if_pos hr

theorem retryable_false (h : writeFailureRetryable error = true) :
    writeFailureCommitted error = some false := by
  unfold writeFailureRetryable writeFailureUncertain at h
  simp only [Bool.and_eq_true, Bool.not_eq_true', decide_eq_true_eq] at h
  obtain ⟨⟨-, hcertain⟩, hcommit⟩ := h
  cases hc : writeFailureCommitted error with
  | none =>
    rw [hc] at hcertain
    cases hcertain
  | some b =>
    cases b with
    | false => rfl
    | true => exact absurd (writeFailureCommitted_eq_true.mp hc) hcommit

end

/-- What a session adds to the notes of the exception that ends its transaction. -/
structure Marks (phase : WritePhase) (confirmed : Bool) (notes : List String) : Prop where
  first : notes.findSome? (afterPrefix? "database_write_phase:") = some phase.name
  commit : "database_commit:confirmed" ∉ notes
  rollback : phase = .commit → ("database_rollback:confirmed" ∈ notes ↔ confirmed = true)

def Raised.addNotes (error : Raised) (notes : List String) : Raised :=
  { error with notes := error.notes ++ notes }

section

variable {p : WritePhase} {confirmed : Bool} {notes notes' : List String} {error : Raised}

theorem Marks.start (notes : List String) (hc : "database_commit:confirmed" ∉ notes)
    (hr : p = .commit → ("database_rollback:confirmed" ∈ notes ↔ confirmed = true)) :
    Marks p confirmed (p.note :: notes) := by
  obtain ⟨hpc, hpr⟩ := p.silent
  refine ⟨?_, ?_, fun hp => ?_⟩
  · rw [List.findSome?_cons, p.afterPrefix?_note]
  · rw [List.mem_cons, not_or]
    exact ⟨hpc.symm, hc⟩
  · rw [List.mem_cons, ← hr hp]
    exact ⟨fun hm => hm.resolve_left hpr.symm, Or.inr⟩

theorem Marks.append (h : Marks p confirmed notes) (notes' : List String) (hc : "database_commit:confirmed" ∉ notes')
    (hr : p = .commit → "database_rollback:confirmed" ∉ notes') :
    Marks p confirmed (notes ++ notes') := by
  refine ⟨?_, ?_, fun hp => ?_⟩
  · rw [List.findSome?_append, h.first]
    rfl
  · rw [List.mem_append, not_or]
    exact ⟨h.commit, hc⟩
  · rw [List.mem_append, ← h.rollback hp]
    exact ⟨fun hm => hm.resolve_right (hr hp), Or.inl⟩

theorem Marks.committed (h : Marks p confirmed notes) :
    writeFailureCommitted (error.addNotes notes) = some true ↔
      writeFailureCommitted error = some true := by
  rw [writeFailureCommitted_eq_true, writeFailureCommitted_eq_true, Raised.addNotes, List.mem_append]
  exact ⟨fun hm => hm.resolve_right h.commit, Or.inl⟩

/-- After a commit, the phase noted is no early one. -/
theorem Marks.discarded (h : Marks .commit confirmed notes) :
    writeFailureCommitted (error.addNotes notes) = some false ↔
      writeFailureCommitted (if confirmed then error.addNote "database_rollback:confirmed"
        else error) = some false := by
  have hphase : phaseEarly (error.notes ++ notes) = phaseEarly error.notes := by
    rw [phaseEarly, phaseEarly, List.findSome?_append, h.first]
    cases error.notes.findSome? (afterPrefix? "database_write_phase:") with
    | none => rfl
    | some phase => rfl
  have hrollback := h.rollback rfl
  rw [writeFailureCommitted_eq_false, writeFailureCommitted_eq_false, Raised.addNotes, hphase]
  cases confirmed with
  | false =>
    have hno : "database_rollback:confirmed" ∉ notes := fun hm => nomatch hrollback.mp hm
    simp only [List.mem_append, h.commit, hno, or_false, Bool.false_eq_true, if_false]
  | true =>
    have hadded : phaseEarly (error.notes ++ ["database_rollback:confirmed"]) =
        phaseEarly error.notes := by
      rw [phaseEarly, phaseEarly, List.findSome?_append]
      cases error.notes.findSome? (afterPrefix? "database_write_phase:") with
      | none => rfl
      | some phase => rfl
    simp [Raised.addNote, hadded, h.commit, hrollback.mpr rfl]

end

/-! Awaits. -/

section

variable {α : Type} {a : Awaited α}

theorem Awaited.complete_ok (h : a.fails = false) :
    ∃ value, a.result = .ok value ∧ a.complete = .ok (value, a.cancellation) := by
  unfold fails at h
  unfold complete
  cases hr : a.result with
  | ok value => exact ⟨value, rfl, rfl⟩
  | error error =>
    rw [hr] at h
    cases h

theorem Awaited.complete_error (h : a.fails = true) :
    ∃ error, a.complete = .error error ∧
      (a.cancelled = true → error.cancellation.isSome = true) := by
  unfold fails at h
  unfold complete cancellation
  cases hr : a.result with
  | ok value =>
    rw [hr] at h
    cases h
  | error error =>
    dsimp only
    cases a.cancelled with
    | true => exact ⟨_, rfl, fun _ => rfl⟩
    | false =>
      cases a.suspended && error.head.cancelled with
      | true => exact ⟨_, rfl, nofun⟩
      | false => exact ⟨_, rfl, nofun⟩

/-- An await of the transaction ends quietly, with a cancellation, or with an exception. -/
theorem Awaited.complete_cases (a : Awaited α) :
    (a.attempt = ⟨false, true⟩ ∧ ∃ value, a.complete = .ok (value, none)) ∨
    (a.attempt = ⟨true, false⟩ ∧ ∃ value, a.complete = .ok (value, some cancelledError)) ∨
    (a.attempt.passes = false ∧ ∃ error, a.complete = .error error ∧
      (a.attempt.cancelled = true → error.cancellation.isSome = true)) := by
  unfold attempt
  cases hf : a.fails with
  | true => exact Or.inr (Or.inr ⟨rfl, complete_error hf⟩)
  | false =>
    obtain ⟨value, -, hcomplete⟩ := complete_ok hf
    rw [hcomplete, cancellation]
    cases a.cancelled with
    | true => exact Or.inr (Or.inl ⟨rfl, value, rfl⟩)
    | false => exact Or.inl ⟨rfl, value, rfl⟩

end

section

variable {ops : Operations} {p : WritePhase} {error : Failure} {l : Locals}

/-- The transaction commits over awaits that all passed, or raises an exception that carries any
cancellation, in the commit phase exactly when it comes to the commit. -/
theorem transact_cases (ops : Operations) :
    (ops.transact = .ok ops.commit.cancellation ∧ ops.commitReturned = true ∧
      (reached ops.attempts).any (·.cancelled) = false) ∨
    ∃ p error, ops.transact = .error (p, error) ∧ ops.commitReturned = false ∧
      (p = .commit ↔ ops.reachesCommit = true) ∧
      ((reached (ops.attempts ++ [ops.commit.attempt])).any (·.cancelled) = true →
        error.cancellation.isSome = true) := by
  unfold Operations.transact Operations.commitReturned Operations.reachesCommit Operations.attempts
  rcases ops.connection.complete_cases with ⟨ha, v, hc⟩ | ⟨ha, v, hc⟩ | ⟨ha, e, hc, hk⟩
  · rw [hc, ha]
    cases hb : (if ops.sqlite = true then ops.beginImmediate else .ok ()) with
    | error e => exact Or.inr ⟨_, e, rfl, rfl, ⟨nofun, nofun⟩, by simp [reached, directAttempt]⟩
    | ok u =>
      cases hbody : ops.body with
      | error e => exact Or.inr ⟨_, e, rfl, rfl, ⟨nofun, nofun⟩, by simp [reached, directAttempt]⟩
      | ok u =>
        rcases ops.flush.complete_cases with ⟨hf, v, hc⟩ | ⟨hf, v, hc⟩ | ⟨hf, e, hc, hk⟩
        · rw [hc, hf]
          cases hfails : ops.commit.fails with
          | true =>
            obtain ⟨e, hc, hk⟩ := Awaited.complete_error hfails
            refine Or.inr ⟨.commit, e, by simp only [hc], rfl, ⟨fun _ => rfl, fun _ => rfl⟩, ?_⟩
            simpa [reached, directAttempt, Awaited.attempt] using hk
          | false =>
            obtain ⟨v, -, hc⟩ := Awaited.complete_ok hfails
            exact Or.inl ⟨by simp only [hc], rfl, rfl⟩
        · rw [hc, hf]
          exact Or.inr ⟨.flush, _, rfl, rfl, ⟨nofun, nofun⟩, fun _ => rfl⟩
        · rw [hc]
          refine Or.inr ⟨.flush, e, rfl, ?_, ⟨nofun, ?_⟩, ?_⟩
          · simp [directAttempt, hf]
          · simp [directAttempt, hf]
          · simpa [reached, directAttempt, hf] using hk
  · rw [hc, ha]
    exact Or.inr ⟨.begin, _, rfl, rfl, ⟨nofun, nofun⟩, fun _ => rfl⟩
  · rw [hc]
    refine Or.inr ⟨.begin, e, rfl, ?_, ⟨nofun, ?_⟩, ?_⟩
    · simp [ha]
    · simp [ha]
    · simpa [reached, ha] using hk

/-- The cancellation that cleanups keep. -/
def kept (as : List (Awaited Unit)) : Option Cancellation :=
  if as.any (·.keeps) then some (.other cancelledError) else none

theorem kept_append (as bs : List (Awaited Unit)) : kept (as ++ bs) = (kept as <|> kept bs) := by
  unfold kept
  rw [List.any_append]
  cases as.any (·.keeps) <;> rfl

theorem kept_of_fails {a : Awaited Unit} (h : a.fails = true) : kept [a] = none := by
  simp [kept, Awaited.keeps, h]

theorem kept_of_ok {a : Awaited Unit} (h : a.fails = false) :
    a.cancellation.map .other = kept [a] := by
  simp only [kept, List.any_cons, List.any_nil, Bool.or_false, Awaited.keeps, h, Bool.not_false,
    Bool.and_true, Awaited.cancellation]
  cases a.cancelled <;> rfl

/-- The first cleanups. -/
def Operations.undoing (ops : Operations) : List (Awaited Unit) :=
  ops.rollback :: if ops.rollback.fails then [ops.invalidate] else []

/-- The last cleanups. -/
def Operations.closing (ops : Operations) : List (Awaited Unit) :=
  ops.close :: if ops.driver then
      if ops.close.fails then [ops.stop] else ops.physicalExit.toList
    else []

theorem rescue_spec (ops : Operations) (p : WritePhase) (error : Failure) :
    ∃ notes, Marks p (!ops.rollback.fails) notes ∧
      (ops.rescue p error).failure = some (error.head.addNotes notes) ∧
      (ops.rescue p error).cancellation = (error.cancellation <|> kept ops.undoing) := by
  unfold Operations.rescue Operations.undoing
  cases hr : ops.rollback.fails with
  | false =>
    obtain ⟨v, -, hc⟩ := Awaited.complete_ok hr
    rw [hc]
    refine ⟨_, Marks.start ["database_rollback:confirmed"] (by decide)
      (fun _ => ⟨fun _ => rfl, fun _ => by decide⟩), ?_, ?_⟩
    · simp [Locals.addNote, Locals.remember, Raised.addNote, Raised.addNotes]
    · rw [if_neg Bool.false_ne_true, ← kept_of_ok hr]
      rfl
  | true =>
    obtain ⟨cleanup, hc, -⟩ := Awaited.complete_error hr
    rw [hc]
    obtain ⟨hcommit, hrollback⟩ := silent_rollbackFailed cleanup.head.typeName
    have hkept : kept [ops.rollback, ops.invalidate] = kept [ops.invalidate] := by
      rw [← List.singleton_append, kept_append, kept_of_fails hr]
      rfl
    rw [if_pos rfl, hkept]
    cases hi : ops.invalidate.fails with
    | false =>
      obtain ⟨v, -, hc⟩ := Awaited.complete_ok hi
      rw [hc]
      refine ⟨_, Marks.start ["rollback_failed:" ++ cleanup.head.typeName]
        (by simpa using hcommit.symm) (fun _ => ⟨fun h => ?_, nofun⟩), ?_, ?_⟩
      · exact absurd (List.mem_singleton.mp h).symm hrollback
      · simp [Locals.addNote, Locals.remember, Raised.addNote, Raised.addNotes]
      · rw [← kept_of_ok hi]
        rfl
    | true =>
      obtain ⟨invalidation, hc, -⟩ := Awaited.complete_error hi
      rw [hc]
      obtain ⟨hcommit', hrollback'⟩ := silent_invalidationFailed invalidation.head.typeName
      refine ⟨_, Marks.start ["rollback_failed:" ++ cleanup.head.typeName,
        "invalidation_failed:" ++ invalidation.head.typeName]
        (by simpa using ⟨hcommit.symm, hcommit'.symm⟩) (fun _ => ⟨fun h => ?_, nofun⟩), ?_, ?_⟩
      · rcases List.mem_cons.mp h with h | h
        · exact absurd h.symm hrollback
        · exact absurd (List.mem_singleton.mp h).symm hrollback'
      · simp [Locals.addNote, Raised.addNote, Raised.addNotes]
      · rw [kept_of_fails hi]
        simp [Locals.addNote]

theorem closeSession_spec (ops : Operations) (l : Locals) :
    ∃ notes, (∀ note ∈ notes, Silent note) ∧
      (ops.closeSession l).1.failure = l.failure.map (·.addNotes notes) ∧
      (ops.closeSession l).1.cancellation = (l.cancellation <|> kept [ops.close]) ∧
      (ops.closeSession l).2.isSome = ops.close.fails := by
  unfold Operations.closeSession
  cases hf : ops.close.fails with
  | false =>
    obtain ⟨v, -, hc⟩ := Awaited.complete_ok hf
    rw [hc]
    refine ⟨[], nofun, ?_, ?_, rfl⟩
    · simp [Locals.remember, Raised.addNotes]
    · rw [← kept_of_ok hf]
      rfl
  | true =>
    obtain ⟨cleanup, hc, -⟩ := Awaited.complete_error hf
    rw [hc]
    refine ⟨["invalidation_failed:" ++ cleanup.head.typeName], fun note hn => ?_, rfl, ?_, rfl⟩
    · rw [List.mem_singleton.mp hn]
      exact silent_invalidationFailed _
    · rw [kept_of_fails hf]
      simp [Locals.addNote]

/-- The exit that the session awaits. -/
def Operations.exits (ops : Operations) : List (Awaited Unit) :=
  if ops.driver then if ops.close.fails then [ops.stop] else ops.physicalExit.toList else []

theorem awaitExit_spec {closeFailure : Option Failure}
    (h : closeFailure.isSome = ops.close.fails) :
    (ops.unstopped = false ∧ ∃ stopped cancelled,
      ops.awaitExit closeFailure = .ok (stopped, cancelled) ∧
        cancelled.map .other = kept ops.exits) ∨
    (ops.unstopped = true ∧ kept ops.exits = none ∧ ∃ cleanup,
      ops.awaitExit closeFailure = .error cleanup) := by
  unfold Operations.unstopped Operations.awaitExit Operations.exits
  rw [← h]
  cases ops.driver with
  | false =>
    cases closeFailure with
    | none => exact Or.inl ⟨rfl, false, none, rfl, rfl⟩
    | some error => exact Or.inr ⟨rfl, rfl, error, rfl⟩
  | true =>
    have hexits : (if closeFailure.isSome = true then [ops.stop] else ops.physicalExit.toList) =
        (if closeFailure.isSome = true then some ops.stop else ops.physicalExit).toList := by
      split <;> rfl
    simp only [if_true, hexits]
    cases (if closeFailure.isSome = true then some ops.stop else ops.physicalExit) with
    | none => exact Or.inl ⟨rfl, false, none, rfl, rfl⟩
    | some stopped =>
      cases hf : stopped.fails with
      | false =>
        obtain ⟨v, -, hc⟩ := Awaited.complete_ok hf
        refine Or.inl ⟨hf, true, stopped.cancellation, ?_, kept_of_ok hf⟩
        simp only [hc]
        rfl
      | true =>
        obtain ⟨cleanup, hc, -⟩ := Awaited.complete_error hf
        refine Or.inr ⟨hf, kept_of_fails hf, cleanup, ?_⟩
        simp only [hc]
        rfl

theorem release_spec (ops : Operations) (p : WritePhase) (committed : Bool) {l : Locals}
    (h : l.failure.isSome = true ∨ committed = true) :
    ∃ notes, "database_commit:confirmed" ∉ notes ∧
      (p = .commit → "database_rollback:confirmed" ∉ notes) ∧
      (ops.release p committed l).1.failure = l.failure.map (·.addNotes notes) ∧
      (ops.release p committed l).1.cancellation = (l.cancellation <|> kept ops.closing) ∧
      (ops.release p committed l).2.isSome = ops.unstopped := by
  obtain ⟨notes, hsilent, hfailure, hcancellation, hclose⟩ := closeSession_spec ops l
  have hclosing : kept ops.closing = (kept [ops.close] <|> kept ops.exits) :=
    kept_append [ops.close] ops.exits
  have hcommit : "database_commit:confirmed" ∉ notes := fun hn => (hsilent _ hn).1 rfl
  have hrollback : "database_rollback:confirmed" ∉ notes := fun hn => (hsilent _ hn).2 rfl
  have hassoc : ∀ c : Option Cancellation, ((l.cancellation <|> kept [ops.close]) <|> c) =
      (l.cancellation <|> (kept [ops.close] <|> c)) := by
    intro c
    cases l.cancellation <;> rfl
  unfold Operations.release
  dsimp only
  rcases awaitExit_spec hclose with ⟨hu, stopped, cancelled, hexit, hkept⟩ |
    ⟨hu, hkept, cleanup, hexit⟩
  · rw [hexit, hu, hclosing, ← hkept, ← hassoc, ← hcancellation]
    dsimp only
    cases hadd : stopped && decide (p ≠ .commit) with
    | false => exact ⟨notes, hcommit, fun _ => hrollback, hfailure, rfl, rfl⟩
    | true =>
      refine ⟨notes ++ ["database_rollback:confirmed"], ?_, fun hp => ?_, ?_, rfl, rfl⟩
      · simpa using hcommit
      · simp [hp] at hadd
      · rw [if_pos rfl, Locals.addNote, Locals.remember, hfailure]
        simp [Raised.addNote, Raised.addNotes, Function.comp_def]
  · rw [hexit, hu, hclosing, hkept]
    obtain ⟨hcommit', hrollback'⟩ := silent_invalidationFailed cleanup.head.typeName
    have hcancellation' : (ops.closeSession l).1.cancellation =
        (l.cancellation <|> (kept [ops.close] <|> none)) := by
      rw [hcancellation]
      cases l.cancellation <;> simp
    cases hl : l.failure with
    | none =>
      have hnone : (ops.closeSession l).1.failure = none := by
        rw [hfailure, hl]
        rfl
      have hdone : committed = true := by
        rw [hl] at h
        exact h.resolve_left Bool.false_ne_true
      refine ⟨notes, hcommit, fun _ => hrollback, ?_, ?_, rfl⟩
      · simp [hnone, hdone]
      · simpa [hnone, hdone] using hcancellation'
    | some error =>
      have hsome : (ops.closeSession l).1.failure = some (error.addNotes notes) := by
        rw [hfailure, hl]
        rfl
      refine ⟨notes ++ ["invalidation_failed:" ++ cleanup.head.typeName], ?_, fun _ => ?_, ?_, ?_,
        rfl⟩
      · simpa using ⟨hcommit, hcommit'.symm⟩
      · simpa using ⟨hrollback, hrollback'.symm⟩
      · simp [hsome, Locals.addNote, Raised.addNote, Raised.addNotes]
      · simpa [hsome, Locals.addNote] using hcancellation'

/-! The outcome. -/

theorem outcome_raised (h : ops.transact = .error (p, error)) (hc : ops.commitReturned = false) :
    (immediateSession ops).published = false ∧
    (immediateSession ops).writerFailure.isSome = ops.unstopped ∧
    (∀ x itself, ops.leaving error = some (x, itself) → ∃ notes,
      Marks p (itself && !ops.rollback.fails) notes ∧
        (immediateSession ops).raised = some (x.addNotes notes)) ∧
    (ops.leaving error = none →
      (immediateSession ops).raised = some (cancelledError.addNotes [p.note])) := by
  obtain ⟨notes, hmarks, hfailure, hcancellation⟩ := rescue_spec ops p error
  have hsome : (ops.rescue p error).failure.isSome = true := by
    rw [hfailure]
    rfl
  obtain ⟨notes', hcommit, hrollback, hfailure', hcancellation', hunstopped⟩ :=
    release_spec ops p false (Or.inl hsome)
  have hmarks' := hmarks.append notes' hcommit hrollback
  have hcleanups : ops.cleanups = ops.undoing ++ ops.closing := by
    rw [Operations.cleanups, hc]
    rfl
  have hraised : (immediateSession ops).raised =
      report p false (ops.release p false (ops.rescue p error)).1 := by
    rw [immediateSession, h]
  have hlast : (ops.release p false (ops.rescue p error)).1.failure =
      some (error.head.addNotes (notes ++ notes')) := by
    rw [hfailure', hfailure]
    simp [Raised.addNotes]
  have hkept : (ops.release p false (ops.rescue p error)).1.cancellation =
      (error.cancellation <|> kept ops.cleanups) := by
    rw [hcancellation', hcancellation, hcleanups, kept_append]
    cases error.cancellation <;> rfl
  refine ⟨by rw [immediateSession, h], by rw [immediateSession, h]; exact hunstopped,
    fun x itself hx => ?_, fun hx => ?_⟩
  · unfold Operations.leaving at hx
    rw [hraised, report, hkept, hlast]
    cases hcase : error.cancellation with
    | none =>
      rw [hcase] at hx
      by_cases hany : ops.cleanups.any (·.keeps) = true
      · rw [if_pos hany] at hx
        cases hx
      · rw [if_neg hany] at hx
        obtain ⟨rfl, rfl⟩ := Prod.mk.inj (Option.some.inj hx)
        rw [kept, if_neg hany]
        exact ⟨_, hmarks', rfl⟩
    | some c =>
      rw [hcase] at hx
      cases c with
      | original =>
        obtain ⟨rfl, rfl⟩ := Prod.mk.inj (Option.some.inj hx)
        obtain ⟨hpc, hpr⟩ := p.silent
        refine ⟨_, hmarks'.append [p.note] (by simpa using hpc.symm)
          (fun _ => by simpa using hpr.symm), ?_⟩
        simp [Raised.addNote, Raised.addNotes]
      | other c =>
        obtain ⟨rfl, rfl⟩ := Prod.mk.inj (Option.some.inj hx)
        exact ⟨_, Marks.start [] nofun fun _ => ⟨nofun, nofun⟩, rfl⟩
  · unfold Operations.leaving at hx
    rw [hraised, report, hkept, hlast]
    cases hcase : error.cancellation with
    | none =>
      rw [hcase] at hx
      by_cases hany : ops.cleanups.any (·.keeps) = true
      · rw [kept, if_pos hany]
        rfl
      · rw [if_neg hany] at hx
        cases hx
    | some c =>
      rw [hcase] at hx
      cases c <;> cases hx

theorem outcome_committed (h : ops.transact = .ok ops.commit.cancellation)
    (hc : ops.commitReturned = true) :
    (immediateSession ops).published = true ∧
    (immediateSession ops).writerFailure.isSome = ops.unstopped ∧
    (immediateSession ops).raised =
      if ops.commit.cancelled || ops.cleanups.any (·.keeps) then
        some (cancelledError.addNotes [WritePhase.commit.note, "database_commit:confirmed"])
      else none := by
  obtain ⟨notes, -, -, hfailure, hcancellation, hunstopped⟩ :=
    release_spec ops .commit true
      (l := { cancellation := ops.commit.cancellation.map .other }) (Or.inr rfl)
  have hcleanups : ops.cleanups = ops.closing := by
    rw [Operations.cleanups, hc]
    rfl
  refine ⟨by rw [immediateSession, h], by rw [immediateSession, h]; exact hunstopped, ?_⟩
  have hraised : (immediateSession ops).raised = report .commit true
      (ops.release .commit true { cancellation := ops.commit.cancellation.map .other }).1 := by
    rw [immediateSession, h]
  rw [hraised, report, hcancellation, hfailure, ← hcleanups, kept, Awaited.cancellation]
  cases ops.commit.cancelled <;> cases ops.cleanups.any (·.keeps) <;> rfl

theorem leaving_cancelled {x : Raised} {itself : Bool} (h : ops.leaving error = some (x, itself)) :
    x.cancelled = error.cancellation.isSome := by
  unfold Operations.leaving at h
  cases hc : error.cancellation with
  | none =>
    have hhead : error.head.cancelled = false := by
      unfold Failure.cancellation at hc
      split at hc
      · cases hc
      · next hno => exact eq_false_of_ne_true hno
    rw [hc] at h
    dsimp only at h
    split at h
    · cases h
    · obtain ⟨rfl, -⟩ := Prod.mk.inj (Option.some.inj h)
      exact hhead
  | some c =>
    rw [hc] at h
    unfold Failure.cancellation at hc
    cases c with
    | original =>
      obtain ⟨rfl, -⟩ := Prod.mk.inj (Option.some.inj h)
      split at hc
      · next hyes => exact hyes
      · obtain ⟨c, -, hc⟩ := Option.map_eq_some_iff.mp hc
        cases hc
    | other c =>
      obtain ⟨rfl, -⟩ := Prod.mk.inj (Option.some.inj h)
      split at hc
      · cases Option.some.inj hc
      · obtain ⟨d, hd, hdc⟩ := Option.map_eq_some_iff.mp hc
        obtain rfl := Cancellation.other.inj hdc
        exact List.find?_some (p := fun e : Raised => e.cancelled) hd

theorem reached_append {as : List Attempt} (h : as.all (·.passes) = true) (bs : List Attempt) :
    reached (as ++ bs) = as ++ reached bs := by
  induction as with
  | nil => rfl
  | cons a as ih =>
    obtain ⟨ha, has⟩ := Bool.and_eq_true_iff.mp h
    rw [List.cons_append, reached, if_pos ha, ih has, List.cons_append]

theorem received_cases (h : ops.received = true) :
    (reached (ops.attempts ++ [ops.commit.attempt])).any (·.cancelled) = true ∨
    (∃ a ∈ ops.cleanups, a.keeps = true) ∨
    ∃ a ∈ ops.cleanups, a.cancelled = true ∧ a.fails = true := by
  unfold Operations.received at h
  refine (Bool.or_eq_true_iff.mp h).imp id fun hc => ?_
  obtain ⟨a, ha, hcancelled⟩ := List.any_eq_true.mp hc
  cases hf : a.fails with
  | true => exact Or.inr ⟨a, ha, hcancelled, hf⟩
  | false => exact Or.inl ⟨a, ha, by rw [Awaited.keeps, hcancelled, hf]; rfl⟩

theorem received_of_lost (h : ∃ a ∈ ops.cleanups, a.cancelled = true ∧ a.fails = true) :
    ops.received = true := by
  obtain ⟨a, ha, hcancelled, -⟩ := h
  exact Bool.or_eq_true_iff.mpr (Or.inr (List.any_eq_true.mpr ⟨a, ha, hcancelled⟩))

theorem reported_of_committed (h : ops.transact = .ok ops.commit.cancellation)
    (hc : ops.commitReturned = true)
    (hquiet : (reached ops.attempts).any (·.cancelled) = false) :
    ops.Reported (immediateSession ops) ↔ ops.Clear := by
  obtain ⟨hpublished, -, hraised⟩ := outcome_committed h hc
  obtain ⟨hreach, hfails⟩ := Bool.and_eq_true_iff.mp hc
  have htook : ops.took = true := by
    rw [Operations.took, hreach, hfails]
    rfl
  have horiginal : ops.original = none := by rw [Operations.original, h]
  have hsome : (∃ e ∈ (immediateSession ops).raised, e.cancelled = true) ↔
      ops.commit.cancelled = true ∨ ∃ a ∈ ops.cleanups, a.keeps = true := by
    rw [hraised, ← List.any_eq_true, ← Bool.or_eq_true_iff]
    cases ops.commit.cancelled || ops.cleanups.any (·.keeps) with
    | false => exact ⟨nofun, nofun⟩
    | true => exact ⟨fun _ => rfl, fun _ => ⟨_, rfl, rfl⟩⟩
  have hfalse : ∀ e ∈ (immediateSession ops).raised, writeFailureCommitted e ≠ some false := by
    intro e he hno
    rw [hraised] at he
    split at he
    · obtain rfl := Option.some.inj he
      exact (writeFailureCommitted_eq_false.mp hno).1 (by decide)
    · cases he
  constructor
  · intro hr
    refine ⟨fun hlost => Or.inr ?_, fun hno => ?_, fun _ e he => ?_⟩
    · rcases hsome.mp (hr.cancelled (received_of_lost hlost)) with hcommit | hkeeps
      · exact Or.inl ⟨hc, hcommit⟩
      · exact Or.inr hkeeps
    · rw [htook] at hno
      cases hno
    · rw [horiginal] at he
      cases he
  · intro hclear
    refine ⟨fun _ _ _ => htook, fun e he hno => absurd hno (hfalse e he),
      fun e he hretry => absurd (retryable_false hretry) (hfalse e he),
      ⟨fun _ => hc, fun _ => hpublished⟩, fun hreceived => hsome.mpr ?_⟩
    rcases received_cases hreceived with htry | hkeeps | hlost
    · have hall : reached ops.attempts = ops.attempts := by
        simpa [reached] using reached_append hreach []
      rw [reached_append hreach, List.any_append, ← hall, hquiet] at htry
      exact Or.inl (by simpa [reached, Awaited.attempt] using htry)
    · exact Or.inr hkeeps
    · rcases hclear.cancellation hlost with ⟨e, he, -⟩ | ⟨-, hcommit⟩ | hkeeps
      · rw [horiginal] at he
        cases he
      · exact Or.inl hcommit
      · exact Or.inr hkeeps

/-- What the exception that leaves says of the outcome is what it said before the session's notes. -/
theorem verdict_iff {b : Bool} (h : ops.transact = .error (p, error))
    (hc : ops.commitReturned = false) (verdict : Raised → Bool → Option Bool)
    (hfresh : writeFailureCommitted (cancelledError.addNotes [p.note]) ≠ some b)
    (hverdict : ∀ x itself notes, Marks p (itself && !ops.rollback.fails) notes →
      (writeFailureCommitted (x.addNotes notes) = some b ↔ verdict x itself = some b)) :
    (∀ e ∈ (immediateSession ops).raised, writeFailureCommitted e ≠ some b) ↔
      ∀ x ∈ ops.leaving error, verdict x.1 x.2 ≠ some b := by
  obtain ⟨-, -, hleaving, hnone⟩ := outcome_raised h hc
  cases hl : ops.leaving error with
  | none =>
    rw [hnone hl]
    refine ⟨fun _ x hx => ?_, fun _ e he => ?_⟩
    · cases hx
    · obtain rfl := Option.some.inj he
      exact hfresh
  | some r =>
    obtain ⟨x, itself⟩ := r
    obtain ⟨notes, hmarks, hraised⟩ := hleaving x itself hl
    rw [hraised]
    constructor
    · rintro hno y hy
      obtain rfl := Option.some.inj hy
      exact fun hyes => hno _ rfl ((hverdict x itself notes hmarks).mpr hyes)
    · rintro hno e he
      obtain rfl := Option.some.inj he
      exact fun hyes => hno _ rfl ((hverdict x itself notes hmarks).mp hyes)

theorem reported_of_raised (h : ops.transact = .error (p, error))
    (hc : ops.commitReturned = false) (hp : p = .commit ↔ ops.reachesCommit = true)
    (htry : (reached (ops.attempts ++ [ops.commit.attempt])).any (·.cancelled) = true →
      error.cancellation.isSome = true) :
    ops.Reported (immediateSession ops) ↔ ops.Clear := by
  obtain ⟨hpublished, -, hleaving, hnone⟩ := outcome_raised h hc
  have horiginal : ops.original = some error := by rw [Operations.original, h]
  have hsome : (∃ e ∈ (immediateSession ops).raised, e.cancelled = true) ↔
      error.cancellation.isSome = true ∨ ∃ a ∈ ops.cleanups, a.keeps = true := by
    cases hl : ops.leaving error with
    | none =>
      have hkeeps : ops.cleanups.any (·.keeps) = true := by
        unfold Operations.leaving at hl
        split at hl
        · cases hl
        · cases hl
        · by_contra hno
          rw [if_neg hno] at hl
          cases hl
      rw [hnone hl]
      exact ⟨fun _ => Or.inr (List.any_eq_true.mp hkeeps), fun _ => ⟨_, rfl, rfl⟩⟩
    | some r =>
      obtain ⟨x, itself⟩ := r
      obtain ⟨notes, -, hraised⟩ := hleaving x itself hl
      have hx := leaving_cancelled hl
      rw [hraised, ← hx]
      constructor
      · rintro ⟨e, he, hcancelled⟩
        obtain rfl := Option.some.inj he
        exact Or.inl hcancelled
      · rintro (hcancelled | hkeeps)
        · exact ⟨_, rfl, hcancelled⟩
        · unfold Operations.leaving at hl
          cases hcase : error.cancellation with
          | some c =>
            rw [hcase] at hx
            exact ⟨_, rfl, hx⟩
          | none =>
            rw [hcase] at hl
            dsimp only at hl
            rw [if_pos (List.any_eq_true.mpr hkeeps)] at hl
            cases hl
  have htrue : ops.took = false → ((∀ e ∈ (immediateSession ops).raised,
      writeFailureCommitted e ≠ some true) ↔
        ∀ x ∈ ops.leaving error, writeFailureCommitted x.1 ≠ some true) := fun _ =>
    verdict_iff h hc (b := true) (fun x _ => writeFailureCommitted x) (by cases p <;> decide)
      fun x itself notes hmarks => hmarks.committed
  have hfalse : ops.took = true → ((∀ e ∈ (immediateSession ops).raised,
      writeFailureCommitted e ≠ some false) ↔
        ∀ x ∈ ops.leaving error, ops.verdict x.1 x.2 ≠ some false) := by
    intro ht
    obtain rfl := hp.mpr (Bool.and_eq_true_iff.mp ht).1
    exact verdict_iff h hc (b := false) ops.verdict (by decide) fun x itself notes hmarks =>
      hmarks.discarded
  constructor
  · intro hr
    refine ⟨fun hlost => ?_, fun ht e he => ?_, fun ht e he => ?_⟩
    · rcases hsome.mp (hr.cancelled (received_of_lost hlost)) with hcause | hkeeps
      · exact Or.inl ⟨error, horiginal, hcause⟩
      · exact Or.inr (Or.inr hkeeps)
    · obtain rfl := Option.some.inj (horiginal.symm.trans he)
      exact (htrue ht).mp fun e he hyes => absurd (hr.committed e he hyes) (ne_true_of_eq_false ht)
    · obtain rfl := Option.some.inj (horiginal.symm.trans he)
      exact (hfalse ht).mp fun e he hno => absurd (hr.discarded e he hno) (ne_false_of_eq_true ht)
  · intro hclear
    have hnot : ∀ e ∈ (immediateSession ops).raised, writeFailureCommitted e = some false →
        ops.took = false := fun e he hno => by
      by_contra ht
      have ht := eq_true_of_ne_false ht
      exact (hfalse ht).mpr (hclear.discarded ht error horiginal) e he hno
    refine ⟨fun e he hyes => ?_, hnot, fun e he hretry => hnot e he (retryable_false hretry), ?_,
      fun hreceived => hsome.mpr ?_⟩
    · by_contra ht
      have ht := eq_false_of_ne_true ht
      exact (htrue ht).mpr (hclear.committed ht error horiginal) e he hyes
    · rw [hpublished, hc]
    · rcases received_cases hreceived with hcause | hkeeps | hlost
      · exact Or.inl (htry hcause)
      · exact Or.inr hkeeps
      · rcases hclear.cancellation hlost with ⟨e, he, hcause⟩ | ⟨hreturned, -⟩ | hkeeps
        · obtain rfl := Option.some.inj (horiginal.symm.trans he)
          exact Or.inl hcause
        · rw [hc] at hreturned
          cases hreturned
        · exact Or.inr hkeeps

/-- What the session reports is true exactly when its operations are clear. -/
theorem reported_iff (ops : Operations) : ops.Reported (immediateSession ops) ↔ ops.Clear := by
  rcases transact_cases ops with ⟨h, hc, hquiet⟩ | ⟨p, error, h, hc, hp, htry⟩
  · exact reported_of_committed h hc hquiet
  · exact reported_of_raised h hc hp htry

theorem published_eq (ops : Operations) : (immediateSession ops).published = ops.commitReturned := by
  rcases transact_cases ops with ⟨h, hc, -⟩ | ⟨p, error, h, hc, -⟩
  · rw [(outcome_committed h hc).1, hc]
  · rw [(outcome_raised h hc).1, hc]

theorem writerFailure_eq (ops : Operations) :
    (immediateSession ops).writerFailure.isSome = ops.unstopped := by
  rcases transact_cases ops with ⟨h, hc, -⟩ | ⟨p, error, h, hc, -⟩
  · exact (outcome_committed h hc).2.1
  · exact (outcome_raised h hc).2.1

end

end Yuki.Persistence

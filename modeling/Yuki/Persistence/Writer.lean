import Yuki.Lib.PyText
import Mathlib.Data.List.Basic

/-! The one writer of a database: its session step by step, and how it reports
what became of the transaction. -/

namespace Yuki.Persistence

/-! Exceptions. -/

/-- An exception; the SQLite error code is its own, or that of the error it wraps. -/
structure Raised where
  typeName : String
  cancelled : Bool := false
  sqliteErrorcode : Option Int := none
  notes : List String := []
deriving DecidableEq, Repr

def Raised.addNote (error : Raised) (note : String) : Raised :=
  { error with notes := error.notes ++ [note] }

/-- An exception with what it was raised from, in turn. -/
structure Failure where
  head : Raised
  causes : List Raised := []
deriving DecidableEq, Repr

def writeFailurePhase (error : Raised) : Option String :=
  error.notes.findSome? (afterPrefix? "database_write_phase:")

/-- The actual outcome of the transaction: committed, rolled back, or unknown. -/
def writeFailureCommitted (error : Raised) : Option Bool :=
  if "database_commit:confirmed" ∈ error.notes then some true
  else if (writeFailurePhase error).any (fun phase => decide (phase ∈ ["begin", "execute", "flush"])) ∧
      "database_rollback:confirmed" ∈ error.notes then some false
  else none

def writeFailureUncertain (error : Raised) : Bool :=
  (writeFailureCommitted error).isNone

def sqliteBusy : Int := 5

def writeFailureRetryable (error : Raised) : Bool :=
  error.sqliteErrorcode.any (fun code => decide (code % 256 = sqliteBusy)) &&
    !writeFailureUncertain error && decide ("database_commit:confirmed" ∉ error.notes)

/-! Awaited operations. -/

/-- A cancellation by the caller. -/
def cancelledError : Raised where
  typeName := "CancelledError"
  cancelled := true

/-- How an operation ends, how often the caller is cancelled meanwhile, and whether the operation
was not done at once. -/
structure Awaited (α : Type) where
  result : Except Failure α
  cancellations : Nat := 0
  suspended : Bool := false

namespace Awaited

variable {α : Type} (a : Awaited α)

def fails : Bool :=
  match a.result with
  | .ok _ => false
  | .error _ => true

def cancelled : Bool :=
  decide (0 < a.cancellations)

/-- The cancellation that `_complete` remembers. -/
def cancellation : Option Raised :=
  if a.cancelled then some cancelledError else none

/-- `_complete`: an operation that was itself cancelled while awaited counts as a cancellation. -/
def complete : Except Failure (α × Option Raised) :=
  match a.result with
  | .ok value => .ok (value, a.cancellation)
  | .error error =>
    match a.cancellation, a.suspended && error.head.cancelled with
    | none, false => .error error
    | _, _ => .error ⟨cancelledError, error.head :: error.causes⟩

end Awaited

/-! The session. -/

inductive WritePhase
  | begin | execute | flush | commit
deriving DecidableEq, Repr

def WritePhase.name : WritePhase → String
  | .begin => "begin"
  | .execute => "execute"
  | .flush => "flush"
  | .commit => "commit"

def WritePhase.note (phase : WritePhase) : String :=
  "database_write_phase:" ++ phase.name

/-- What the operations of a writer's session do, each where the session comes to it. -/
structure Operations where
  /-- The database is SQLite. -/
  sqlite : Bool := true
  /-- The checkout, and whether its driver's exit can be awaited. -/
  connection : Awaited Bool
  beginImmediate : Except Failure Unit
  body : Except Failure Unit
  flush : Awaited Unit
  commit : Awaited Unit
  /-- A commit that raised took effect. -/
  acknowledgementLost : Bool := false
  rollback : Awaited Unit
  invalidate : Awaited Unit
  close : Awaited Unit
  /-- The exit that is under way after the session closed. -/
  physicalExit : Option (Awaited Unit) := none
  /-- The exit that is asked for where the session did not close. -/
  stop : Awaited Unit

/-- A remembered cancellation: the failure itself, or another. -/
inductive Cancellation
  | original
  | other (error : Raised)
deriving DecidableEq, Repr

/-- The first cancellation of the chain. -/
def Failure.cancellation (error : Failure) : Option Cancellation :=
  if error.head.cancelled then some .original
  else (error.causes.find? (·.cancelled)).map .other

structure Locals where
  failure : Option Raised := none
  cancellation : Option Cancellation := none
deriving DecidableEq, Repr

def Locals.addNote (l : Locals) (note : String) : Locals :=
  { l with failure := l.failure.map (·.addNote note) }

/-- `cancellation = cancellation or cancelled`. -/
def Locals.remember (l : Locals) (cancelled : Option Raised) : Locals :=
  { l with cancellation := l.cancellation <|> cancelled.map .other }

structure WriteOutcome where
  raised : Option Raised
  /-- Commit hints are published. -/
  published : Bool
  writerFailure : Option Raised
deriving DecidableEq, Repr

namespace Operations

variable (ops : Operations)

def driver : Bool :=
  match ops.connection.result with
  | .ok driver => driver
  | .error _ => false

/-- The transaction: its phase and exception, or the cancellation remembered over its commit. -/
def transact : Except (WritePhase × Failure) (Option Raised) :=
  match ops.connection.complete with
  | .error error => .error (.begin, error)
  | .ok (_, some cancellation) => .error (.begin, ⟨cancellation, []⟩)
  | .ok (_, none) =>
    match if ops.sqlite then ops.beginImmediate else .ok () with
    | .error error => .error (.begin, error)
    | .ok () =>
      match ops.body with
      | .error error => .error (.execute, error)
      | .ok () =>
        match ops.flush.complete with
        | .error error => .error (.flush, error)
        | .ok (_, some cancellation) => .error (.flush, ⟨cancellation, []⟩)
        | .ok (_, none) =>
          match ops.commit.complete with
          | .error error => .error (.commit, error)
          | .ok (_, cancellation) => .ok cancellation

/-- The `except` block. -/
def rescue (phase : WritePhase) (error : Failure) : Locals :=
  let l : Locals := ⟨some (error.head.addNote phase.note), error.cancellation⟩
  match ops.rollback.complete with
  | .ok (_, cancelled) => (l.remember cancelled).addNote "database_rollback:confirmed"
  | .error cleanup =>
    let l := l.addNote ("rollback_failed:" ++ cleanup.head.typeName)
    match ops.invalidate.complete with
    | .ok (_, cancelled) => l.remember cancelled
    | .error invalidation => l.addNote ("invalidation_failed:" ++ invalidation.head.typeName)

/-- Closes the session: the locals, and the failure to close. -/
def closeSession (l : Locals) : Locals × Option Failure :=
  match ops.close.complete with
  | .ok (_, cancelled) => (l.remember cancelled, none)
  | .error cleanup => (l.addNote ("invalidation_failed:" ++ cleanup.head.typeName), some cleanup)

/-- Awaits the driver's exit, if there is one: whether there was, and the cancellation meanwhile. -/
def awaitExit (closeFailure : Option Failure) : Except Failure (Bool × Option Raised) :=
  match ops.driver, closeFailure with
  | true, closeFailure =>
    match if closeFailure.isSome then some ops.stop else ops.physicalExit with
    | some stopped => stopped.complete.map fun r => (true, r.2)
    | none => .ok (false, none)
  | false, some error => .error error
  | false, none => .ok (false, none)

/-- The `finally` block: the locals, and the writer's failure. -/
def release (phase : WritePhase) (committed : Bool) (l : Locals) : Locals × Option Raised :=
  let closed := ops.closeSession l
  match ops.awaitExit closed.2 with
  | .ok (stopped, cancelled) =>
    let l := closed.1.remember cancelled
    (if stopped && decide (phase ≠ .commit) then l.addNote "database_rollback:confirmed" else l, none)
  | .error cleanup =>
    let l := closed.1
    (if l.failure.isSome then l.addNote ("invalidation_failed:" ++ cleanup.head.typeName)
      else if committed then l
      else { l with failure := some (cleanup.head.addNote phase.note) },
      some cleanup.head)

end Operations

/-- What leaves the session after the writer's release. -/
def report (phase : WritePhase) (committed : Bool) (l : Locals) : Option Raised :=
  let mark (cancellation : Raised) : Raised :=
    let cancellation := cancellation.addNote phase.note
    if committed then cancellation.addNote "database_commit:confirmed" else cancellation
  match l.cancellation with
  | some .original => l.failure.map mark
  | some (.other cancellation) => some (mark cancellation)
  | none => l.failure

/-- `Database.immediate_session`, from the admission of the writer on. -/
def immediateSession (ops : Operations) : WriteOutcome :=
  match ops.transact with
  | .error (phase, error) =>
    let released := ops.release phase false (ops.rescue phase error)
    ⟨report phase false released.1, false, released.2⟩
  | .ok cancellation =>
    let released := ops.release .commit true { cancellation := cancellation.map .other }
    ⟨report .commit true released.1, true, released.2⟩

/-! Readers and new connections, which may stop the writer too. -/

structure ReadOperations where
  connection : Awaited Bool
  body : Except Failure Unit
  /-- The driver is stopping as the cleanup begins. -/
  stopping : Bool := false
  invalidate : Awaited Unit
  closeConnection : Awaited Unit
  closeSession : Awaited Unit
  invalidateAgain : Awaited Unit
  physicalExit : Option (Awaited Unit) := none

namespace ReadOperations

variable (ops : ReadOperations)

def driver : Bool :=
  match ops.connection.result with
  | .ok driver => driver
  | .error _ => false

def read : Except Failure Unit :=
  match ops.connection.complete with
  | .error error => .error error
  | .ok (_, some cancellation) => .error ⟨cancellation, []⟩
  | .ok (_, none) => ops.body

/-- The cleanup in order: what it remembers, up to the first failure. -/
def closing : List (Awaited Unit) :=
  (if ops.driver && ops.stopping then [ops.invalidate] else []) ++
    (if ops.connection.fails then [] else [ops.closeConnection]) ++ [ops.closeSession]

def closeAll (l : Locals) : List (Awaited Unit) → Locals × Option Failure
  | [] => (l, none)
  | a :: as =>
    match a.complete with
    | .ok (_, cancelled) => closeAll (l.remember cancelled) as
    | .error cleanup => (l, some cleanup)

/-- Adds a note to the failure, or becomes it. -/
def record (l : Locals) (note : String) (cleanup : Failure) : Locals :=
  if l.failure.isSome then l.addNote (note ++ cleanup.head.typeName)
  else { l with failure := some cleanup.head }

def release (l : Locals) : Locals × Option Raised :=
  let closed := closeAll l ops.closing
  let l :=
    match closed.2 with
    | none => closed.1
    | some cleanup =>
      let l := record closed.1 "reader_close_failed:" cleanup
      match ops.invalidateAgain.complete with
      | .ok (_, cancelled) => l.remember cancelled
      | .error invalidation => l.addNote ("invalidation_failed:" ++ invalidation.head.typeName)
  match if ops.driver then ops.physicalExit else none with
  | none => (l, none)
  | some stopped =>
    match stopped.complete with
    | .ok (_, cancelled) => (l.remember cancelled, none)
    | .error cleanup => (record l "invalidation_failed:" cleanup, some cleanup.head)

end ReadOperations

/-- `Database.read_session`: what it raises, and the writer's failure. -/
def readSession (ops : ReadOperations) : Option Raised × Option Raised :=
  let l : Locals :=
    match ops.read with
    | .ok () => {}
    | .error error => ⟨some error.head, if error.head.cancelled then some .original else none⟩
  let released := ops.release l
  (match released.1.cancellation with
    | some (.other cancellation) => some cancellation
    | _ => released.1.failure,
    released.2)

structure ConnectOperations where
  opening : Awaited Unit
  loadVec1 : Awaited Unit
  stop : Option (Awaited Unit)

def ConnectOperations.connect (ops : ConnectOperations) : Except Failure Unit :=
  match ops.opening.complete with
  | .error error => .error error
  | .ok (_, some cancellation) => .error ⟨cancellation, []⟩
  | .ok (_, none) =>
    match ops.loadVec1.complete with
    | .error error => .error error
    | .ok (_, some cancellation) => .error ⟨cancellation, []⟩
    | .ok (_, none) => .ok ()

/-- `Database._connect_sqlite`: what it raises, and the writer's failure. -/
def connectSqlite (ops : ConnectOperations) : Option Raised × Option Raised :=
  match ops.connect with
  | .ok () => (none, none)
  | .error error =>
    match ops.stop with
    | none => (some error.head, none)
    | some stopped =>
      match stopped.complete with
      | .ok _ => (some error.head, none)
      | .error cleanup =>
        (some (error.head.addNote ("invalidation_failed:" ++ cleanup.head.typeName)),
          some cleanup.head)

end Yuki.Persistence

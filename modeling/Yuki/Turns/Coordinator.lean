import Yuki.Lib.Dict
import Yuki.Lib.Attempt

/-! The turn coordinator of one conversation: its guarded sections, and the
tasks a notification cancels when it leaves one. -/

namespace Yuki

/-- An asyncio task, by its identity. -/
abbrev TaskId := Nat

inductive TurnStage
  | admission | generation
deriving DecidableEq, Repr

inductive TurnOrigin
  | userMessage | autonomousGroup | selfInitiative | scheduledAutomation | pluginSession
  | pluginBackground | systemTask
deriving DecidableEq, Repr

structure TurnToken where
  version : Nat
  origin : TurnOrigin
  createdAt : Int
deriving DecidableEq, Repr

structure RegisteredTurn where
  token : TurnToken
  stages : Nat := 1
  effectStarted : Bool := false
  cancellationRequested : Bool := false
deriving DecidableEq, Repr

structure TurnState where
  version : Nat := 0
  origin : TurnOrigin := .userMessage
  mutationStarted : Bool := false
  protectedVersion : Option Nat := none
  tasks : Dict TurnStage TaskId := []
  registrations : Dict TaskId RegisteredTurn := []
  holders : Dict TaskId Nat := []
deriving DecidableEq, Repr

inductive TurnError
  | superseded (message : String)
deriving DecidableEq, Repr

/-- The keyword arguments of `notify_message`. -/
structure NotifyFlags where
  observation : Bool := false
  protectFromObservations : Bool := false
  preserveActive : Bool := false
  preemptPrivate : Bool := false
deriving DecidableEq, Repr

/-- What a notification gathers while it holds the guard. -/
structure Cancelling where
  registrations : Dict TaskId RegisteredTurn
  toJoin : List TaskId := []
  toCancel : List TaskId := []

/-- What a notification leaves behind. -/
structure Notified where
  state : TurnState
  token : TurnToken
  toJoin : List TaskId := []
  toCancel : List TaskId := []

namespace TurnState

/-! `notify_message`. -/

section

variable (current : Option TaskId) (done : TaskId → Bool)

/-- A foreground turn without an effect, other than the caller's. -/
def preemptable (task : TaskId) (registered : RegisteredTurn) : Bool :=
  registered.token.origin == .userMessage && !registered.effectStarted &&
    decide (current ≠ some task) && !done task

/-- The loop of `preempt_private`. -/
def preemptPrivate (registrations : Dict TaskId RegisteredTurn) : Cancelling :=
  { registrations := registrations.map fun item =>
      (item.1, if preemptable current done item.1 item.2 then
        { item.2 with cancellationRequested := true } else item.2)
    toJoin := (registrations.filter fun item => preemptable current done item.1 item.2).map (·.1)
    toCancel := (registrations.filter fun item =>
      preemptable current done item.1 item.2 && !item.2.cancellationRequested).map (·.1) }

/-- One stage of the loop over an interruptible earlier origin. -/
def interruptStage (tasks : Dict TurnStage TaskId) (c : Cancelling) (stage : TurnStage) :
    Cancelling :=
  match tasks.lookup stage with
  | none => c
  | some prior =>
    if current = some prior ∨ done prior = true then c
    else match c.registrations.lookup prior with
      | none => { c with toCancel := c.toCancel.insert prior }
      | some registered =>
        if registered.effectStarted ∨ registered.cancellationRequested then c
        else
          { c with
            registrations :=
              c.registrations.set prior { registered with cancellationRequested := true }
            toCancel := c.toCancel.insert prior }

def notifyMessage (interruptAutonomous : Bool) (origin : TurnOrigin) (flags : NotifyFlags)
    (now : Int) (state : TurnState) : Notified :=
  if flags.preserveActive ∨
      flags.observation = true ∧ state.protectedVersion = some state.version then
    { state := state, token := ⟨state.version, state.origin, now⟩ }
  else
    let c : Cancelling :=
      if flags.preemptPrivate then preemptPrivate current done state.registrations
      else { registrations := state.registrations }
    let c :=
      if interruptAutonomous = true ∧ state.origin ∈ [.autonomousGroup, .pluginBackground] ∧
          state.mutationStarted = false then
        [TurnStage.admission, .generation].foldl (interruptStage current done state.tasks) c
      else c
    let version := state.version + 1
    { state :=
        { state with
          version := version
          origin := origin
          mutationStarted := false
          protectedVersion := if flags.protectFromObservations then some version else none
          registrations := c.registrations }
      token := ⟨version, origin, now⟩
      toJoin := c.toJoin
      toCancel := c.toCancel }

/-- `_occupied`. -/
def occupied (state : TurnState) : Bool :=
  (state.tasks.map (·.2) ++ Dict.keys state.holders).any fun task => !done task

end

/-! `hold`. -/

def addHolder (state : TurnState) (task : TaskId) : TurnState :=
  { state with holders := state.holders.set task ((state.holders.lookup task).getD 0 + 1) }

def dropHolder (state : TurnState) (task : TaskId) : TurnState :=
  let count := (state.holders.lookup task).getD 0
  { state with
    holders := if count > 1 then state.holders.set task (count - 1) else state.holders.erase task }

/-! `track`. -/

/-- The entry of a stage. -/
def enterStage (state : TurnState) (token : TurnToken) (stage : TurnStage) (task : TaskId) :
    Except TurnError TurnState :=
  if state.version ≠ token.version then
    .error (.superseded "turn was superseded before stage registration")
  else
    let tasks := state.tasks.set stage task
    match state.registrations.lookup task with
    | none =>
      .ok { state with
        tasks := tasks
        registrations := state.registrations.set task
          { token := token, effectStarted := state.mutationStarted } }
    | some registered =>
      if registered.token ≠ token then .error (.superseded "task already belongs to another turn")
      else
        .ok { state with
          tasks := tasks
          registrations := state.registrations.set task
            { registered with stages := registered.stages + 1 } }

/-- The exit of a stage. -/
def exitStage (state : TurnState) (stage : TurnStage) (task : TaskId) : TurnState :=
  { state with
    tasks := if state.tasks.lookup stage = some task then state.tasks.erase stage else state.tasks
    registrations :=
      match state.registrations.lookup task with
      | none => state.registrations
      | some registered =>
        if registered.stages - 1 = 0 then state.registrations.erase task
        else state.registrations.set task { registered with stages := registered.stages - 1 } }

def markMutationStarted (state : TurnState) (token : TurnToken) : TurnState :=
  { state with
    registrations := state.registrations.map fun item =>
      (item.1, if item.2.token = token then { item.2 with effectStarted := true } else item.2)
    mutationStarted := if state.version = token.version then true else state.mutationStarted }

/-! Foreground and background admissions. -/

section

variable (done : TaskId → Bool)

def promoteObservation (state : TurnState) (token : TurnToken) (preserveActive : Bool) :
    TurnState × Option TurnToken :=
  if state.version ≠ token.version then (state, none)
  else if preserveActive then (state, some ⟨state.version, .userMessage, token.createdAt⟩)
  else if state.occupied done then (state, none)
  else
    let version := state.version + 1
    ({ state with
        version := version
        origin := .userMessage
        mutationStarted := false
        protectedVersion := some version },
      some ⟨version, .userMessage, token.createdAt⟩)

/-- `_background_token`. -/
def backgroundToken (state : TurnState) (origin : TurnOrigin) (now : Int) :
    TurnState × TurnToken :=
  let version := state.version + 1
  ({ state with
      version := version
      origin := origin
      mutationStarted := false
      protectedVersion := none },
    ⟨version, origin, now⟩)

def beginBackground (state : TurnState) (now : Int) : TurnState × Option TurnToken :=
  if state.occupied done then (state, none)
  else
    let (state, token) := state.backgroundToken .pluginBackground now
    (state, some token)

/-- The entry of `background_turn`: check and reservation in one section. -/
def enterBackground (state : TurnState) (task : TaskId) (origin : TurnOrigin) (now : Int) :
    TurnState × Option TurnToken :=
  if state.occupied done then (state, none)
  else
    let (state, token) := state.backgroundToken origin now
    (state.addHolder task, some token)

end

def isCurrent (state : TurnState) (token : TurnToken) : Bool :=
  state.version == token.version

end TurnState

/-! One conversation under any schedule of tasks. -/

/-- An open `hold`, `track`, or granted `background_turn` block. -/
inductive TurnBlock
  | hold (task : TaskId)
  | track (task : TaskId) (token : TurnToken) (stage : TurnStage)
  | background (task : TaskId)
deriving DecidableEq, Repr

def TurnBlock.task : TurnBlock → TaskId
  | .hold task | .track task _ _ | .background task => task

inductive TurnAction
  | configure (interruptAutonomous : Bool)
  | notify (current : Option TaskId) (origin : TurnOrigin) (flags : NotifyFlags) (now : Int)
  | hold (task : TaskId)
  | track (task : TaskId) (token : TurnToken) (stage : TurnStage)
  | background (task : TaskId) (origin : TurnOrigin) (now : Int)
  /-- The exit of the block at a position. -/
  | exit (block : Nat)
  | mark (token : TurnToken)
  | promote (token : TurnToken) (preserveActive : Bool)
  | beginBackground (now : Int)
  /-- A task outside all blocks returns. -/
  | finish (task : TaskId)
deriving DecidableEq, Repr

/-- The state of a conversation, the tasks around it, and what happened so far. -/
structure Conversation where
  interruptAutonomous : Bool := true
  /-- `none` before the conversation has an entry. -/
  state : Option TurnState := none
  done : List TaskId := []
  blocks : List TurnBlock := []
  /-- Every token handed out. -/
  tokens : List TurnToken := []
  /-- The tokens `mark_mutation_started` has returned for. -/
  marked : List TurnToken := []
  /-- How often a task was registered. -/
  registered : Dict TaskId Nat := []
  /-- Every cancellation, with the registration it hit. -/
  cancelled : List (TaskId × Nat) := []
deriving DecidableEq, Repr

namespace Conversation

def isDone (c : Conversation) (task : TaskId) : Bool :=
  decide (task ∈ c.done)

/-- `setdefault(conversation_key, _TurnState())`. -/
def current (c : Conversation) : TurnState :=
  c.state.getD {}

/-- The number of the present registration of a task. -/
def registration (c : Conversation) (task : TaskId) : Nat :=
  (c.registered.lookup task).getD 0

def enter (c : Conversation) (state : TurnState) (block : TurnBlock) : Conversation :=
  { c with state := some state, blocks := c.blocks ++ [block] }

def grant (c : Conversation) (token : Option TurnToken) : Conversation :=
  { c with tokens := token.toList ++ c.tokens }

def notify (c : Conversation) (n : Notified) : Conversation :=
  { c with
    state := some n.state
    tokens := n.token :: c.tokens
    cancelled := n.toCancel.map (fun task => (task, c.registration task)) ++ c.cancelled }

def track (c : Conversation) (state : TurnState) (task : TaskId) (token : TurnToken)
    (stage : TurnStage) : Conversation :=
  let fresh := (c.current.registrations.lookup task).isNone
  { c.enter state (.track task token stage) with
    registered := if fresh then c.registered.set task (c.registration task + 1) else c.registered }

/-- One guarded section with the cancellations that follow it; `none` where it cannot run. -/
def step (c : Conversation) : TurnAction → Option Conversation
  | .configure interruptAutonomous => some { c with interruptAutonomous := interruptAutonomous }
  | .notify current origin flags now =>
    some (c.notify
      (c.current.notifyMessage current c.isDone c.interruptAutonomous origin flags now))
  | .hold task =>
    if task ∈ c.done then none else some (c.enter (c.current.addHolder task) (.hold task))
  | .track task token stage =>
    if task ∈ c.done ∨ token ∉ c.tokens then none
    else match c.state with
      | none => some c
      | some state =>
        match state.enterStage token stage task with
        | .error _ => some c
        | .ok state => some (c.track state task token stage)
  | .background task origin now =>
    if task ∈ c.done then none
    else match c.current.enterBackground c.isDone task origin now with
      | (state, none) => some { c with state := some state }
      | (state, some token) => some ((c.enter state (.background task)).grant (some token))
  | .exit i =>
    match c.blocks[i]? with
    | none => none
    | some block =>
      let c := { c with blocks := c.blocks.eraseIdx i }
      match block with
      | .hold task | .background task => some { c with state := some (c.current.dropHolder task) }
      | .track task _ stage => some { c with state := c.state.map fun s => s.exitStage stage task }
  | .mark token =>
    if token ∈ c.tokens then
      some { c with
        state := c.state.map fun s => s.markMutationStarted token
        marked := token :: c.marked }
    else none
  | .promote token preserveActive =>
    if token ∈ c.tokens then
      match c.state with
      | none => some c
      | some state =>
        let (state, granted) := state.promoteObservation c.isDone token preserveActive
        some ({ c with state := some state }.grant granted)
    else none
  | .beginBackground now =>
    let (state, granted) := c.current.beginBackground c.isDone now
    some ({ c with state := some state }.grant granted)
  | .finish task =>
    if task ∈ c.done ∨ task ∈ c.blocks.map TurnBlock.task then none
    else some { c with done := task :: c.done }

/-- `is_current`. -/
def isCurrent (c : Conversation) (token : TurnToken) : Bool :=
  c.state.any fun s => s.isCurrent token

def Step (c : Conversation) (a : TurnAction) (c' : Conversation) : Prop :=
  c.step a = some c'

end Conversation

end Yuki

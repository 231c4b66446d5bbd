import Mathlib.Data.List.Sort
import Yuki.Runtime.Waits

/-! The turn jobs of plugins: publication, claims, attempts, and the Work that
the first admission binds to a job. -/

namespace Yuki.BackgroundTurns

inductive JobStatus
  | pending | processing | completed | failed | cancelled
deriving DecidableEq

inductive TargetType
  | group | private_
deriving DecidableEq

/-- `plugin_background_turn_jobs`. -/
structure JobRow where
  id : Nat
  sourcePersonId : Option String
  sourceEventId : Int
  pluginId : String
  targetType : TargetType
  targetId : String
  botUserId : String
  agentIntent : String
  status : JobStatus
  attempts : Nat := 0
  maxAttempts : Nat := 3
  nextAttemptAt : Time
  leaseUntil : Option Time := none
  generatedText : String := ""
  toolCallsUsed : Int := 0
  modelRequests : Int := 0
  lastErrorCategory : Option String := none
  createdAt : Time
  updatedAt : Time
  completedAt : Option Time := none
  canonicalTargetPersonId : Option String
  canonicalTargetSpaceId : Option String
  canonicalConversationId : Option String
  canonicalPresenceId : Option String
  workId : Option String := none

/-- `_turn_record`. -/
structure BackgroundTurnJobRecord where
  id : Nat
  sourceEventId : Int
  pluginId : String
  targetType : TargetType
  targetId : String
  botUserId : String
  agentIntent : String
  attempts : Nat
  generation : Int
  canonicalTargetPersonId : Option String
  canonicalTargetSpaceId : Option String
  canonicalPresenceId : Option String
  canonicalConversationId : Option String
  workId : Option String
  sourcePersonId : Option String

def turnRecord (row : JobRow) (generation : Int) : BackgroundTurnJobRecord where
  id := row.id
  sourceEventId := row.sourceEventId
  pluginId := row.pluginId
  targetType := row.targetType
  targetId := row.targetId
  botUserId := row.botUserId
  agentIntent := row.agentIntent
  attempts := row.attempts
  generation := generation
  canonicalTargetPersonId := row.canonicalTargetPersonId
  canonicalTargetSpaceId := row.canonicalTargetSpaceId
  canonicalPresenceId := row.canonicalPresenceId
  canonicalConversationId := row.canonicalConversationId
  workId := row.workId
  sourcePersonId := row.sourcePersonId

structure Store where
  db : Db := {}
  jobs : Table JobRow.id := .empty

/-- The columns of `chat_events` that a fence reads. -/
structure SourceEvent where
  id : Int
  canonicalConversationId : Option String
  eventKind : String
  direction : String
  authorKind : String
  sourcePluginId : Option String
  suppressionStatus : Option String
deriving DecidableEq

/-- What the other tables say at the time of a transaction: whether the plugin may still act for
a job, why its rows cannot be read, the bounds of a conversation, and the events. -/
structure Scene where
  authorityLive : JobRow → Bool
  unreadable : JobRow → Option String
  startsAfterEventId : String → Int
  lastEventId : String → Int
  events : List SourceEvent

def Scene.event (c : Scene) (id : Int) : Option SourceEvent :=
  c.events.find? fun e => e.id = id

def canonicalLive (status : Option String) : Bool :=
  status.all fun s => s = "keeper"

/-- `_has_later_human_message`. -/
def hasLaterHumanMessage (c : Scene) (source : SourceEvent) (throughEventId : Int) : Bool :=
  match source.canonicalConversationId.filter (· ≠ "") with
  | none => true
  | some conversationId => c.events.any fun e =>
      e.canonicalConversationId = some conversationId && source.id < e.id && e.id ≤ throughEventId &&
        canonicalLive e.suppressionStatus && e.eventKind = "message" && e.direction = "inbound" &&
        e.authorKind = "person"

def supersededCovered : String := "superseded_covered"
def generationStale : String := "generation_stale"
def laterHuman : String := "later_human_inbound"
def attemptReclaimed : String := "attempt_reclaimed"
def workParked : String := "runtime_work_parked"

/-- `_turn_fence_category`. -/
def turnFenceCategory (db : Db) (c : Scene) (job : JobRow) (expectedGeneration : Int) :
    Option String :=
  if !c.authorityLive job then some "plugin_authority_revoked"
  else match job.canonicalConversationId.bind db.conversations.get?, c.event job.sourceEventId with
  | some conversation, some source =>
    if conversation.generation ≠ expectedGeneration then some supersededCovered
    else if source.eventKind ≠ "external_event" || source.direction ≠ "external" ||
        source.authorKind ≠ "system" || source.sourcePluginId ≠ some job.pluginId ||
        source.canonicalConversationId ≠ some conversation.id ||
        source.id ≤ c.startsAfterEventId conversation.id ||
        c.lastEventId conversation.id < source.id || !canonicalLive source.suppressionStatus then
      some supersededCovered
    else if job.workId.isSome then none
    else if hasLaterHumanMessage c source (c.lastEventId conversation.id) then some laterHuman
    else none
  | _, _ => some supersededCovered

/-- `queued_work_error_category`. -/
def queuedWorkErrorCategory (category : String) (row : JobRow) : String :=
  let person := row.canonicalTargetPersonId.any (· ≠ "")
  let space := row.canonicalTargetSpaceId.any (· ≠ "")
  if category = "missing_canonical_owner" && !person && !space then "canonical_target_missing"
  else if category = "state_mismatch" && person && space then "canonical_target_ambiguous"
  else category

/-- `_owns_processing_attempt`. -/
def ownsProcessingAttempt (row : JobRow) (attempt : Nat) : Bool :=
  row.status = .processing && row.attempts = attempt

/-- The row as a transaction leaves it. -/
def Store.put (s : Store) (row : JobRow) : Store :=
  { s with jobs := s.jobs.update (fun r => r.id = row.id) fun r => { row with id := r.id } }

/-! Ending a job with its Work. -/

/-- The larger of the counts of the job and of its Work. -/
def keepActualUsage (row : JobRow) (usage : Option WorkRow) : JobRow :=
  match usage with
  | none => row
  | some w => { row with
      modelRequests := max row.modelRequests w.modelRequests
      toolCallsUsed := max row.toolCallsUsed w.toolCalls }

/-- `_linked_work_usage`. -/
def linkedWorkUsage (db : Db) (row : JobRow) : Option WorkRow :=
  row.workId.bind db.works.get?

/-- `_close_linked_work`. -/
def closeLinkedWork (db : Db) (now : Time) (identity : String) (state : WorkState)
    (reason : String) : Db :=
  let stopped := stopOwnedExecution db now identity (some reason)
  { stopped with
    works := stopped.works.update (fun w => w.id = identity && !w.state.terminal) fun w =>
      { w with state := state, reason := some reason, revision := w.revision + 1, updated := now } }

/-- How an owner ends a job. -/
inductive Retirement
  | failed | cancelled
deriving DecidableEq

def Retirement.status : Retirement → JobStatus
  | .failed => .failed
  | .cancelled => .cancelled

def Retirement.workState : Retirement → WorkState
  | .failed => .failed
  | .cancelled => .cancelled

/-- `_retire_turn`; `workAs` is the state of the Work where it is not that of the job. -/
def retireTurn (s : Store) (now : Time) (row : JobRow) (status : Retirement) (category : String)
    (workAs : Option Retirement) : Store :=
  let db := match row.workId with
    | none => s.db
    | some identity => closeLinkedWork s.db now identity (workAs.getD status).workState category
  let kept := keepActualUsage row (linkedWorkUsage db row)
  { s with db := db }.put { kept with
    status := status.status
    lastErrorCategory := some category
    leaseUntil := none
    updatedAt := now }

/-- The status and the error of a job whose Work ended in a state. -/
def endedAs : WorkState → JobStatus × Option String
  | .completed => (.completed, none)
  | .cancelled => (.cancelled, some "runtime_work_cancelled")
  | _ => (.failed, some "runtime_work_failed")

/-- `_close_with_terminal_work`. -/
def closedWithTerminalWork (db : Db) (now : Time) (row : JobRow) : JobRow :=
  let usage := linkedWorkUsage db row
  let kept := keepActualUsage row usage
  let ended := match usage with
    | none => (JobStatus.failed, some "runtime_work_missing")
    | some w => endedAs w.state
  { kept with
    id := row.id
    status := ended.1
    lastErrorCategory := ended.2
    completedAt := if ended.1 = .completed then some now else row.completedAt
    leaseUntil := none
    updatedAt := now }

/-! Publication. -/

/-- What a publication says of the turn it asks for. -/
structure TurnRequest where
  id : Nat
  sourcePersonId : Option String
  sourceEventId : Int
  pluginId : String
  targetType : TargetType
  targetId : String
  botUserId : String
  agentIntent : String
  canonicalTargetPersonId : Option String
  canonicalTargetSpaceId : Option String
  canonicalConversationId : Option String
  canonicalPresenceId : Option String
  /-- A wait was resumed by the event, and no turn is needed. -/
  resumedWait : Bool

/-- The job part of `_publish_once`. -/
def publishTurn (s : Store) (now : Time) (r : TurnRequest) : Store :=
  { s with jobs := s.jobs.insert {
      id := r.id
      sourcePersonId := r.sourcePersonId
      sourceEventId := r.sourceEventId
      pluginId := r.pluginId
      targetType := r.targetType
      targetId := r.targetId
      botUserId := r.botUserId
      agentIntent := r.agentIntent
      status := if r.resumedWait then .cancelled else .pending
      nextAttemptAt := now
      createdAt := now
      updatedAt := now
      completedAt := if r.resumedWait then some now else none
      canonicalTargetPersonId := r.canonicalTargetPersonId
      canonicalTargetSpaceId := r.canonicalTargetSpaceId
      canonicalConversationId := r.canonicalConversationId
      canonicalPresenceId := r.canonicalPresenceId } }

/-! Claims. -/

/-- No activation holds the conversation of a Work. -/
def scopeFree (db : Db) (now : Time) (w : WorkRow) : Bool :=
  (db.scopes.get? w.conversationId).all fun scope => scope.leaseUntil ≤ now

def recovered (db : Db) (now : Time) (w : WorkRow) : Bool :=
  (db.recovery.get? w.id).all fun r => r.notBefore ≤ now

/-- `_linked_work_ready`. -/
def linkedWorkReady (db : Db) (now : Time) (row : JobRow) : Bool :=
  match row.workId with
  | none => true
  | some workId =>
    match db.works.get? workId with
    | none => true
    | some w => w.state.terminal || (w.state = .queued && recovered db now w && scopeFree db now w) ||
        (w.state = .running && scopeFree db now w)

/-- An attempt whose lease ran out. -/
def leaseExpired (now : Time) (row : JobRow) : Bool :=
  row.status = .processing && row.leaseUntil.any (· < now) && row.nextAttemptAt ≤ now

/-- `_claim_select`. -/
def claimSelect (db : Db) (now : Time) (row : JobRow) : Bool :=
  (row.status = .pending && row.nextAttemptAt ≤ now && linkedWorkReady db now row) ||
    leaseExpired now row

/-- The rows of `_claim_candidate`: unbound jobs, jobs of runnable Works, expired leases. -/
def discovered (db : Db) (now : Time) (row : JobRow) : Bool :=
  (row.status = .pending && row.workId.isNone && row.nextAttemptAt ≤ now) ||
  (row.status = .pending && row.nextAttemptAt ≤ now &&
    (row.workId.bind db.works.get?).any fun w =>
      (w.state = .queued || w.state = .running) && scopeFree db now w &&
        (w.state = .running || recovered db now w)) ||
  leaseExpired now row

def older (a b : JobRow) : Bool :=
  a.createdAt < b.createdAt || (a.createdAt = b.createdAt && a.id ≤ b.id)

/-- `_claim_candidate`: the oldest of them. -/
def claimCandidate (s : Store) (now : Time) : Option Nat :=
  ((s.jobs.rows.filter (discovered s.db now)).foldl
    (fun best row => match best with
      | none => some row
      | some b => if older b row then some b else some row) none).map JobRow.id

/-- `claim_turn`; `seen` is the database as the discovery read it at `then_`. -/
def claimTurn (seen s : Store) (c : Scene) (then_ now lease : Time) :
    Store × Option BackgroundTurnJobRecord :=
  match (claimCandidate seen then_).bind s.jobs.get? with
  | none => (s, none)
  | some row =>
    if !claimSelect s.db now row then (s, none)
    else if row.workId.isSome && (linkedWorkUsage s.db row).all (·.state.terminal) then
      (s.put (closedWithTerminalWork s.db now row), none)
    else if !linkedWorkReady s.db now row then
      (s.put { row with status := .pending, leaseUntil := none,
                        lastErrorCategory := some workParked, updatedAt := now }, none)
    else
      let taken := { row with
        status := .processing
        attempts := row.attempts + 1
        leaseUntil := some (now + lease)
        updatedAt := now }
      match c.unreadable taken with
      | some category =>
        (retireTurn s now taken .failed (queuedWorkErrorCategory category taken) none, none)
      | none =>
        match taken.canonicalConversationId.bind s.db.conversations.get? with
        | none => (retireTurn s now taken .cancelled supersededCovered none, none)
        | some conversation =>
          if taken.workId.isSome &&
              (linkedWorkUsage s.db taken).all (·.generation ≠ conversation.generation) then
            (retireTurn s now taken .cancelled generationStale none, none)
          else match turnFenceCategory s.db c taken conversation.generation with
          | some category => (retireTurn s now taken .cancelled category none, none)
          | none => (s.put taken, some (turnRecord taken conversation.generation))

/-! The end of jobs whose Works ended. -/

def reconcilable (db : Db) (row : JobRow) : Bool :=
  (row.status = .pending || row.status = .processing) && row.workId.isSome &&
    (linkedWorkUsage db row).all (·.state.terminal)

/-- The reader of `reconcile_terminal_turns`: at most 128 jobs after one. -/
def reconcileIdentities (s : Store) (after : Option Nat) : List Nat :=
  (((s.jobs.rows.filter (reconcilable s.db)).map JobRow.id).filter fun id =>
    after.all (· < id)).insertionSort (· ≤ ·) |>.take 128

/-- One batch of `reconcile_terminal_turns`, whose two updates close each job with its Work. -/
def reconcileTerminalTurns (seen s : Store) (now : Time) (after : Option Nat) : Store :=
  let identities := reconcileIdentities seen after
  { s with
    jobs := s.jobs.update (fun row => identities.contains row.id && reconcilable s.db row)
      (closedWithTerminalWork s.db now) }

/-! The operations of an attempt. -/

/-- Run on the row of a job if the attempt owns it. -/
def Store.owned (s : Store) (id attempt : Nat) (f : JobRow → Store) : Store :=
  match s.jobs.get? id with
  | some row => if ownsProcessingAttempt row attempt then f row else s
  | none => s

/-- End the job where its fence fails, else go on. -/
def fenced (s : Store) (c : Scene) (now : Time) (row : JobRow) (generation : Int)
    (f : Store) : Store :=
  match turnFenceCategory s.db c row generation with
  | some category => retireTurn s now row .cancelled category none
  | none => f

/-- `validate_turn_attempt`. -/
def validateTurnAttempt (s : Store) (c : Scene) (now : Time) (id attempt : Nat) (generation : Int)
    (lease : Time) : Store :=
  s.owned id attempt fun row => fenced s c now row generation
    (s.put { row with leaseUntil := some (now + max 1 lease), updatedAt := now })

/-- `finish_turn`. -/
def finishTurn (s : Store) (c : Scene) (now : Time) (id attempt : Nat) (generation : Int)
    (toolCallsUsed modelRequests : Int) : Store :=
  s.owned id attempt fun row => fenced s c now row generation
    (let done := { row with
      status := .completed
      generatedText := ""
      toolCallsUsed := toolCallsUsed
      modelRequests := modelRequests }
    s.put { keepActualUsage done (linkedWorkUsage s.db done) with
      leaseUntil := none
      updatedAt := now
      completedAt := some now })

/-- `(30, 120, 600)[min(max(attempts - 1, 0), 2)]`. -/
def failDelay (attempts : Nat) : Time :=
  match attempts - 1 with
  | 0 => 30
  | 1 => 120
  | _ => 600

/-- `fail_turn`. -/
def failTurn (s : Store) (now : Time) (id attempt : Nat) (errorCategory : String) : Store :=
  s.owned id attempt fun row =>
    if row.maxAttempts ≤ row.attempts then retireTurn s now row .failed errorCategory none
    else s.put { row with
      status := .pending
      nextAttemptAt := now + failDelay row.attempts
      lastErrorCategory := some errorCategory
      leaseUntil := none
      updatedAt := now }

/-- `abandon_turn`. -/
def abandonTurn (s : Store) (now : Time) (id attempt : Nat) (errorCategory : String) : Store :=
  s.owned id attempt fun row => retireTurn s now row .failed errorCategory (some .cancelled)

/-- `park_turn`. -/
def parkTurn (s : Store) (now : Time) (id attempt : Nat) (errorCategory : String) : Store :=
  s.owned id attempt fun row =>
    if row.workId.isNone && row.maxAttempts ≤ row.attempts then
      retireTurn s now row .failed errorCategory none
    else s.put { row with
      maxAttempts := if row.workId.isNone then row.maxAttempts else row.maxAttempts + 1
      nextAttemptAt := if row.workId.isNone then now + 30 else now
      status := .pending
      lastErrorCategory := some errorCategory
      leaseUntil := none
      updatedAt := now }

/-- `defer_turn`. -/
def deferTurn (s : Store) (now : Time) (id attempt : Nat) (errorCategory : String)
    (delaySeconds : Time) (preserveBudget : Bool) : Store :=
  s.owned id attempt fun row => s.put { row with
    status := .pending
    maxAttempts := if preserveBudget then row.maxAttempts + 1 else row.maxAttempts
    nextAttemptAt := now + max 1 delaySeconds
    lastErrorCategory := some errorCategory
    leaseUntil := none
    updatedAt := now }

/-- The writer of `load_background_context`; `seen` and `before` are what its reader saw. -/
def loadBackgroundContext (seen s : Store) (before c : Scene) (now : Time)
    (job : BackgroundTurnJobRecord) (workId : Option String) : Store :=
  match seen.jobs.get? job.id with
  | some stored =>
    if workId.isNone && ownsProcessingAttempt stored job.attempts &&
        (turnFenceCategory seen.db before stored job.generation).isSome then
      s.owned job.id job.attempts fun row => fenced s c now row job.generation s
    else s
  | none => s

/-- The source of a turn that is admitted. -/
def sourceMatches (job : JobRow) (generation : Int) (lease : WorkLease) (source : Json) : Bool :=
  source.get "owner" = .str "plugin_background" && source.get "plugin_id" = .str job.pluginId &&
    source.get "trigger_event_id" = .int job.sourceEventId &&
    job.canonicalConversationId.any (fun id => source.get "conversation_id" = .str id) &&
    source.get "generation" = .int generation &&
    job.canonicalConversationId = some lease.conversationId && lease.generation = generation

/-- What `admit_background_turn_work` is called with. -/
structure TurnAdmission where
  jobId : Nat
  attempt : Nat
  generation : Int
  sourceKey : String
  source : Json
  goal : String

/-- `admit_background_turn_work`; an exception leaves everything as it was. `fresh` is the id
given to a new Work. -/
def admitBackgroundTurnWork (s : Store) (c : Scene) (now : Time) (lease : WorkLease)
    (a : TurnAdmission) (fresh : String) : Store :=
  s.owned a.jobId a.attempt fun row =>
    if !sourceMatches row a.generation lease a.source then s
    else fenced s c now row a.generation
      (match WorkRepository.acceptInSession s.db now lease
          { sourceKey := a.sourceKey, source := a.source, preparedSourceJson := a.source.sortKeys,
            goal := a.goal } fresh with
      | .error _ => s
      | .ok (db, admitted) =>
        -- the index on `work_id` is unique
        if (row.workId.all (· = admitted.id)) &&
            s.jobs.rows.all fun other => other.id = row.id || other.workId ≠ some admitted.id then
          { s with db := db }.put { row with workId := some admitted.id, updatedAt := now }
        else s)

/-! Revocation. -/

/-- The grant found for the target. -/
structure RevokedGrant where
  pluginId : String
  personId : Option String
  spaceId : Option String
  conversationId : Option String

def RevokedGrant.matches (g : RevokedGrant) (row : JobRow) : Bool :=
  row.pluginId = g.pluginId &&
    (if g.personId.any (· ≠ "") then row.canonicalTargetPersonId = g.personId
      else row.canonicalTargetSpaceId = g.spaceId) &&
    row.canonicalConversationId = g.conversationId &&
    (row.status = .pending || row.status = .processing)

/-- The waits of the revoked conversation for events of the plugin. -/
def RevokedGrant.matchesWait (g : RevokedGrant) (db : Db) (w : WaitRow) : Bool :=
  w.status = .active && g.conversationId = some w.conversationId &&
    (db.conversations.get? w.conversationId).any (fun conversation =>
      if g.personId.any (· ≠ "") then
        conversation.personId.any fun person =>
          g.personId.any fun target => samePerson db (.text person) (.text target)
      else conversation.spaceId = g.spaceId) &&
    w.conditions.any fun condition => match condition.kind with
      | .pluginEvent plugin _ _ _ => plugin = g.pluginId
      | _ => false

/-- The turn part of `revoke_target`. -/
def revokeTarget (s : Store) (now : Time) (g : RevokedGrant) : Store :=
  { s with
    jobs := s.jobs.update g.matches fun row =>
      { row with status := .cancelled, leaseUntil := none, updatedAt := now }
    db := { s.db with
      waits := s.db.waits.update (g.matchesWait s.db)
        (fun w => { w with status := .invalidated, updated := now })
        (WaitRow.id_withStatus .invalidated now) } }

end Yuki.BackgroundTurns

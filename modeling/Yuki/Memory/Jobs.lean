import Yuki.Lib.Fencing
import Yuki.Conversation.EventPrompt

/-! The queue of Memory jobs: what a reader prepares to claim, what the writer
then accepts, and how a claimant gives its job back. -/

namespace Yuki

inductive MemoryJobStatus
  | pending | processing | done | failed
deriving DecidableEq, Repr

inductive MemoryProcessingSource
  | live | rebuild
deriving DecidableEq, Repr

inductive MemoryRebuildJobOutcome
  | claimsApplied | candidatesStaged | noClaims | allRejected | alreadyProcessed
deriving DecidableEq, Repr

/-- `memory_jobs`; instants count microseconds. -/
structure MemoryJobRow where
  id : Nat
  eventId : EventId
  conversationKey : String
  canonicalPersonId : Option String
  canonicalSpaceId : Option String
  status : MemoryJobStatus := .pending
  attempts : Int := 0
  nextAttemptAt : Int
  createdAt : Int
  updatedAt : Int
  errorCategory : Option String := none
  processingSource : MemoryProcessingSource := .live
  rebuildRunId : Option Nat := none
  outcome : Option MemoryRebuildJobOutcome := none
  completedAt : Option Int := none
deriving DecidableEq

/-- `chat_events`: the decoded record, and what only the row keeps. -/
structure ChatEventRow where
  record : EventRecord
  botUserId : String
  groupId : Option String
  canonicalEventId : Option String
deriving DecidableEq

def ChatEventRow.id (row : ChatEventRow) : EventId :=
  row.record.id

/-- The watermarks of `canonical_conversations`. -/
structure ConversationWatermark where
  id : String
  startsAfterEventId : EventId
  lastGenerationChangeEventId : EventId

/-- `MemoryJob`, one row handed to a worker with its event. -/
structure MemoryJob where
  id : Nat
  eventId : EventId
  conversationKey : String
  status : MemoryJobStatus
  attempts : Int
  nextAttemptAt : Int
  createdAt : Int
  updatedAt : Int
  errorCategory : Option String
  processingSource : MemoryProcessingSource
  rebuildRunId : Option Nat
  outcome : Option MemoryRebuildJobOutcome
  completedAt : Option Int
  event : ChatEventRow
  batchTrigger : Option String := none
deriving DecidableEq

/-- What the writer of a claim sets beside the time: a status, and why. -/
structure ClaimValues where
  status : MemoryJobStatus
  errorCategory : Option String := none
deriving DecidableEq

structure PreparedJobClaim where
  jobId : Nat
  status : MemoryJobStatus
  updatedAt : Int
  /-- `none` deletes the row. -/
  values : Option ClaimValues
  liveEventId : Option EventId := none
deriving DecidableEq

inductive MemoryError
  | jobClaimLost (id : Nat)
  | mutationRejected (reasonCode : String)
  | valueError (message : String)
  | partitionResolution
  | integrity
  | connection
deriving DecidableEq, Repr

/-- The jobs with the events their reader joins. -/
structure JobQueue where
  jobs : Table MemoryJobRow.id := .empty
  events : Table ChatEventRow.id := .empty
  conversations : Table ConversationWatermark.id := .empty

/-- `bool(text)`. -/
def hasText (text : Option String) : Bool :=
  text.any (· ≠ "")

def nextUpdatedAt (previous now : Int) : Int :=
  if now > previous then now else previous + 1

theorem lt_nextUpdatedAt (previous now : Int) : previous < nextUpdatedAt previous now := by
  unfold nextUpdatedAt
  split <;> omega

/-! Claiming. -/

namespace JobQueue

/-- `refuse_legacy_live_event`. -/
def refuseLegacyLiveEvent (q : JobQueue) (event : ChatEventRow) : Bool :=
  if !hasText event.canonicalEventId then true
  else match event.record.canonicalConversationId with
    | none => true
    | some conversationId =>
      conversationId = "" || match q.conversations.get? conversationId with
        | none => true
        | some conversation =>
          event.id ≤ conversation.startsAfterEventId ||
            event.id ≤ conversation.lastGenerationChangeEventId

/-- The watermarks a live claim checks again inside the writer. -/
def liveEventExists (q : JobQueue) (eventId : EventId) : Bool :=
  (q.events.get? eventId).any fun event =>
    event.canonicalEventId.isSome &&
      (event.record.canonicalConversationId.bind q.conversations.get?).any fun conversation =>
        event.id > conversation.startsAfterEventId &&
          event.id > conversation.lastGenerationChangeEventId

/-- The row a prepared claim still finds as its reader saw it. -/
def claimable (q : JobQueue) (claim : PreparedJobClaim) (row : MemoryJobRow) : Bool :=
  claim.liveEventId.all q.liveEventExists &&
    row.id == claim.jobId && row.status == claim.status && row.updatedAt == claim.updatedAt

/-- One statement of `commit_job_claims`, with the token it hands out. -/
def commitJobClaim (q : JobQueue) (claim : PreparedJobClaim) (now : Int) :
    JobQueue × Option (Nat × Int) :=
  let token := nextUpdatedAt claim.updatedAt now
  match claim.values with
  | none => ({ q with jobs := q.jobs.delete (q.claimable claim) }, none)
  | some values =>
    ({ q with
        jobs := q.jobs.update (q.claimable claim) fun row =>
          { row with
            status := values.status
            errorCategory := values.errorCategory.or row.errorCategory
            updatedAt := token } },
      if values.status = .processing ∧ q.jobs.rows.any (q.claimable claim) then
        some (claim.jobId, token)
      else none)

/-- `commit_job_claims`; the clock is read for each claim, and the newest token comes first. -/
def commitJobClaims (q : JobQueue) (claims : List (PreparedJobClaim × Int)) :
    JobQueue × List (Nat × Int) :=
  claims.foldl (fun (q, accepted) (claim, now) =>
    let (q, token) := q.commitJobClaim claim now
    (q, token.toList ++ accepted)) (q, [])

/-- The jobs whose claims were accepted, under their actual tokens. -/
def acceptedJobs (jobs : List MemoryJob) (accepted : List (Nat × Int)) : List MemoryJob :=
  jobs.filterMap fun job =>
    (accepted.lookup job.id).map fun token => { job with updatedAt := token }

/-- `memory_job_claim_conditions`. -/
def claimConditions (job : MemoryJob) (row : MemoryJobRow) : Bool :=
  row.id == job.id && row.eventId == job.eventId && row.status == .processing &&
    row.updatedAt == job.updatedAt

/-- `fence_memory_job_claim`. -/
def fence (q : JobQueue) (job : MemoryJob) : Except MemoryError Unit :=
  require (q.jobs.rows.any (claimConditions job) = true) (.jobClaimLost job.id)

end JobQueue

/-- `evidence_content`: quoted speech is left out. -/
def ChatEventRow.evidenceContent (row : ChatEventRow) : Except Err String :=
  if row.record.audioTranscript = "" then .ok row.record.content
  else do
    let items ← parseTranscripts row.record.audioTranscript
    let speech := "\n\n".intercalate ((items.filter (·.source ≠ "reply")).map fun item =>
      "[当前消息的语音转写（自动识别，可能有误）]\n" ++ item.text)
    return strip (row.record.content ++ "\n" ++ speech)

/-- What a reader does with one row. -/
inductive ClaimAdmission
  | drop
  | refuse (errorCategory : String)
  | accept (event : ChatEventRow)

namespace MemoryJobRepository

/-- `timedelta(minutes=5)`. -/
def staleAfter : Int := 300000000

/-- A waiting row, or one whose claimant was silent for five minutes. -/
def eligible (now : Int) (row : MemoryJobRow) : Bool :=
  (row.status == .pending || row.status == .processing && row.updatedAt ≤ now - staleAfter) &&
    row.nextAttemptAt ≤ now

def admission (q : JobQueue) (row : MemoryJobRow) : ClaimAdmission :=
  match q.events.get? row.eventId with
  | none => .drop
  | some event =>
    if row.processingSource = .live then
      if q.refuseLegacyLiveEvent event then .refuse "legacy_event_replay"
      else if hasText row.canonicalPersonId = hasText row.canonicalSpaceId then
        .refuse "missing_canonical_owner"
      else .accept event
    else .accept event

def droppedClaim (row : MemoryJobRow) : PreparedJobClaim :=
  { jobId := row.id, status := row.status, updatedAt := row.updatedAt, values := none }

def refusedClaim (row : MemoryJobRow) (errorCategory : String) : PreparedJobClaim :=
  { jobId := row.id, status := row.status, updatedAt := row.updatedAt,
    values := some { status := .failed, errorCategory := some errorCategory } }

def acceptedClaim (row : MemoryJobRow) : PreparedJobClaim :=
  { jobId := row.id, status := row.status, updatedAt := row.updatedAt,
    values := some { status := .processing },
    liveEventId := if row.processingSource = .live then some row.eventId else none }

def claimedJob (row : MemoryJobRow) (event : ChatEventRow) (now : Int)
    (batchTrigger : Option String) : MemoryJob :=
  { id := row.id, eventId := row.eventId, conversationKey := row.conversationKey,
    status := .processing, attempts := row.attempts, nextAttemptAt := row.nextAttemptAt,
    createdAt := row.createdAt, updatedAt := now, errorCategory := row.errorCategory,
    processingSource := row.processingSource, rebuildRunId := row.rebuildRunId,
    outcome := row.outcome, completedAt := row.completedAt, event := event,
    batchTrigger := batchTrigger }

/-- Rows in the order of their ids. -/
def byId (rows : List MemoryJobRow) : List MemoryJobRow :=
  rows.mergeSort fun r s => r.id ≤ s.id

/-- What a reader takes to the writer: statements, and jobs not yet owned. -/
structure Preparation where
  claims : List PreparedJobClaim := []
  jobs : List MemoryJob := []
deriving DecidableEq

/-- The reader's half of `claim`. -/
def prepareClaim (q : JobQueue) (now : Int) (limit : Nat) : Preparation :=
  ((byId (q.jobs.rows.filter (eligible now))).take (max 1 limit)).foldl (fun p row =>
    match admission q row with
    | .drop => { p with claims := p.claims ++ [droppedClaim row] }
    | .refuse category => { p with claims := p.claims ++ [refusedClaim row category] }
    | .accept event =>
      { claims := p.claims ++ [acceptedClaim row], jobs := p.jobs ++ [claimedJob row event now none] })
    {}

/-- The limits of a batch. -/
structure BatchLimits where
  limit : Nat
  triggerCount : Nat
  maxCharacters : Nat
  maxWait : Int

/-- Rows of one owner, with the aggregates of its group. -/
structure OwnerGroup where
  personId : Option String
  spaceId : Option String
  jobs : List (MemoryJobRow × ChatEventRow)

namespace OwnerGroup

def jobCount (g : OwnerGroup) : Nat :=
  g.jobs.length

def recoveryCount (g : OwnerGroup) : Nat :=
  g.jobs.countP fun (row, _) => row.attempts > 0 || row.status == .processing

def characterCount (g : OwnerGroup) : Nat :=
  (g.jobs.map fun (_, event) =>
    event.record.content.length + event.record.audioTranscript.length).sum

def oldestJob (g : OwnerGroup) : Option Int :=
  (g.jobs.map fun (row, _) => row.createdAt).min?

def firstJobId (g : OwnerGroup) : Option Nat :=
  (g.jobs.map fun (row, _) => row.id).min?

/-- The `HAVING` clause. -/
def ready (limits : BatchLimits) (claimedAt : Int) (g : OwnerGroup) : Bool :=
  g.recoveryCount > 0 || g.jobCount ≥ max 1 limits.triggerCount ||
    g.characterCount ≥ max 1 limits.maxCharacters ||
    g.oldestJob.any (· ≤ claimedAt - limits.maxWait)

def batchTrigger (limits : BatchLimits) (g : OwnerGroup) : String :=
  if g.recoveryCount > 0 then "recovery"
  else if g.jobCount ≥ max 1 limits.triggerCount then "event_count"
  else if g.characterCount ≥ max 1 limits.maxCharacters then "characters"
  else "age"

end OwnerGroup

def xorOwner (row : MemoryJobRow) : Bool :=
  row.canonicalPersonId.isSome != row.canonicalSpaceId.isSome

def sameOwner (r s : MemoryJobRow) : Bool :=
  r.canonicalPersonId == s.canonicalPersonId && r.canonicalSpaceId == s.canonicalSpaceId

/-- The group of a row among the eligible rows that have an event and one owner. -/
def ownerGroup (q : JobQueue) (claimedAt : Int) (owner : MemoryJobRow) : OwnerGroup :=
  { personId := owner.canonicalPersonId
    spaceId := owner.canonicalSpaceId
    jobs := (q.jobs.rows.filter fun row =>
      eligible claimedAt row && xorOwner row && sameOwner owner row).filterMap fun row =>
        (q.events.get? row.eventId).map fun event => (row, event) }

/-- The first ready owner, by its first job. -/
def ownerReady (q : JobQueue) (claimedAt : Int) (limits : BatchLimits) : Option OwnerGroup :=
  (byId (q.jobs.rows.filter fun row => eligible claimedAt row && xorOwner row)).findSome? fun row =>
    let g := ownerGroup q claimedAt row
    if g.firstJobId = some row.id ∧ g.ready limits claimedAt then some g else none

/-- The loop of `claim_ready_batch` over the owner's rows, with the characters taken so far. -/
def takeBatch (q : JobQueue) (claimedAt : Int) (maxCharacters : Nat) (batchTrigger : String) :
    List MemoryJobRow → Nat → Preparation → Except Err Preparation
  | [], _, p => .ok p
  | row :: rows, characters, p =>
    match admission q row with
    | .drop =>
      takeBatch q claimedAt maxCharacters batchTrigger rows characters
        { p with claims := p.claims ++ [droppedClaim row] }
    | .refuse category =>
      takeBatch q claimedAt maxCharacters batchTrigger rows characters
        { p with claims := p.claims ++ [refusedClaim row category] }
    | .accept event => do
      let content ← event.evidenceContent
      if p.jobs ≠ [] ∧ characters + content.length > max 1 maxCharacters then .ok p
      else
        takeBatch q claimedAt maxCharacters batchTrigger rows (characters + content.length)
          { claims := p.claims ++ [acceptedClaim row]
            jobs := p.jobs ++ [claimedJob row event claimedAt (some batchTrigger)] }

/-- The reader's half of `claim_ready_batch`. -/
def prepareReadyBatch (q : JobQueue) (claimedAt : Int) (limits : BatchLimits) :
    Except Err Preparation :=
  match ownerReady q claimedAt limits with
  | none => .ok {}
  | some g =>
    let ownerFilter (row : MemoryJobRow) : Bool :=
      if g.personId.isSome then
        row.canonicalPersonId == g.personId && row.canonicalSpaceId.isNone
      else row.canonicalSpaceId == g.spaceId && row.canonicalPersonId.isNone
    let rows := (byId (q.jobs.rows.filter fun row => eligible claimedAt row && ownerFilter row)).take
      (max 1 limits.limit)
    takeBatch q claimedAt limits.maxCharacters (g.batchTrigger limits) rows 0 {}

/-! Giving a job back. -/

/-- An `UPDATE` under the claim conditions. -/
def finishClaim (q : JobQueue) (job : MemoryJob) (f : MemoryJobRow → MemoryJobRow)
    (hf : ∀ r, (f r).id = r.id := by intro r; rfl) : Except MemoryError JobQueue :=
  if q.jobs.rows.any (JobQueue.claimConditions job) then
    .ok { q with jobs := q.jobs.update (JobQueue.claimConditions job) f hf }
  else .error (.jobClaimLost job.id)

/-- `complete`; `now` was read before the transaction. What it reads again after an
unacknowledged commit decides its answer only. -/
def complete (q : JobQueue) (job : MemoryJob) (outcome : MemoryRebuildJobOutcome)
    (resultCategory : Option String) (now : Int) : Except MemoryError JobQueue :=
  finishClaim q job fun row =>
    { row with
      status := .done
      updatedAt := now
      errorCategory := (resultCategory.filter (· ≠ "")).map fun c => .ofList (c.toList.take 64)
      outcome := some outcome
      completedAt := some now }

/-- `fail`; `now` was read before the transaction. -/
def fail (q : JobQueue) (job : MemoryJob) (errorCategory : String) (now : Int) :
    Except MemoryError JobQueue :=
  let attempts := job.attempts + 1
  finishClaim q job fun row =>
    { row with
      attempts := attempts
      status := .pending
      nextAttemptAt := now + 30000000 * attempts
      updatedAt := now
      errorCategory := some (.ofList (errorCategory.toList.take 64)) }

end MemoryJobRepository

end Yuki

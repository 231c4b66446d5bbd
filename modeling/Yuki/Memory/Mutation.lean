import Yuki.Memory.Jobs

/-! One Worker claim through the receipt boundary: the reader's checks, and the
transaction that reserves a receipt, applies the resolution, and finalizes it. -/

namespace Yuki

inductive MemoryMutationOperation
  | create | correct | invalidate | restore | contest | merge | reassign | updateMetadata
deriving DecidableEq, Repr

inductive MemoryMutationAppliedOperation
  | create | correct | invalidate | restore | contest | merge | reassign | updateMetadata
  | mergeEvidence | noop
deriving DecidableEq, Repr

inductive MemoryMutationOutcome
  | processing | committed | committedAsContested | deduplicated | noChange | rejected
deriving DecidableEq, Repr

inductive MemoryClaimOperation
  | assert | confirm | correct | retract
deriving DecidableEq, Repr

inductive MemoryResolutionAction
  | create | mergeEvidence | supersede | contest | invalidate | restore | merge | noop
deriving DecidableEq, Repr

/-- `MemoryFactCreate`: what the receipt reads of it, and its whole dump. -/
structure MemoryFactCreate where
  scopeType : String
  visibilityType : Option String
  memoryKey : String
  content : String
  dump : Json
deriving DecidableEq

structure MemoryEvidenceCreate where
  eventId : Option EventId
  sourceSpeakerUserId : String
  dump : Json
deriving DecidableEq

structure ValidatedMemoryClaim where
  operation : MemoryClaimOperation
  fact : MemoryFactCreate
  evidence : MemoryEvidenceCreate
deriving DecidableEq

structure MemoryFactCanonicalOwners where
  subjectPersonId : Option String
  subjectSpaceId : Option String
  visibilityPersonId : Option String
  visibilitySpaceId : Option String
deriving DecidableEq

/-- `memory_mutation_receipts`. -/
structure MemoryMutationReceipt where
  id : Nat
  mutationId : String
  idempotencyKey : String
  claimFingerprint : String
  targetFingerprint : String
  triggerSourceType : String
  triggerEventId : Option EventId
  conversationKey : String
  currentGroupId : Option String
  turnOrigin : String
  delegationMode : String
  triggerActorUserId : String
  decisionActorType : String
  decisionActorId : Option String
  executedByBotUserId : String
  requestedOperation : MemoryMutationOperation
  appliedOperation : MemoryMutationAppliedOperation := .noop
  oldFactId : Option Nat := none
  newFactId : Option Nat := none
  outcome : MemoryMutationOutcome := .processing
  reasonCode : String := "processing"
  createdAt : Int
deriving DecidableEq

structure MemoryMutationResult where
  ok : Bool
  mutationId : Option String
  requestedOperation : MemoryMutationOperation
  appliedOperation : MemoryMutationAppliedOperation
  outcome : MemoryMutationOutcome
  oldFactId : Option Nat := none
  newFactId : Option Nat := none
  reasonCode : String
  deduplicated : Bool := false
deriving DecidableEq

/-- `MemoryClaimProcessResult`. -/
structure ProcessedClaim where
  factId : Option Nat
  action : MemoryResolutionAction
  reasonCode : String

/-- The database: the queue, the receipts under their unique key, and the Memory rows `M`. -/
structure MemoryDb (M : Type) where
  queue : JobQueue := {}
  receipts : Table MemoryMutationReceipt.idempotencyKey := .empty
  memory : M

/-- What the transaction calls: identity, source proofs, and the claim processor, which
changes Memory rows and nothing else. -/
structure MutationServices (M : Type) where
  SourceProof : Type
  Resolution : Type
  EvidencePreparation : Type
  sha256 : JsonText → String
  casefold : String → String
  requestedTargetOwners : MemoryDb M → MemoryFactCreate →
    Except MemoryError MemoryFactCanonicalOwners
  /-- The part of `_validated_claim_matches_event` that reads identities. -/
  ownersMatchEvent : MemoryDb M → ValidatedMemoryClaim → ChatEventRow → Bool
  personEnabled : MemoryDb M → String → Bool
  currentPersonId : MemoryDb M → String → Option String
  mutationSourceSnapshot : MemoryDb M → ChatEventRow → MemoryEvidenceCreate →
    Except MemoryError SourceProof
  mutationSourcesCurrent : MemoryDb M → SourceProof → Bool
  resolve : ValidatedMemoryClaim → ChatEventRow → Resolution
  prepareWrite : MemoryDb M → MemoryFactCreate → Except MemoryError EvidencePreparation
  usePreparedWrite : MemoryDb M → EvidencePreparation → Except MemoryError Unit
  applyResolution : M → Resolution → Except MemoryError (M × ProcessedClaim)

def MemoryMutationResult.fromReceipt (receipt : MemoryMutationReceipt) (deduplicated : Bool)
    (requestedOperation : Option MemoryMutationOperation) : MemoryMutationResult :=
  { ok := receipt.outcome ∈ [.committed, .committedAsContested, .deduplicated]
    mutationId := some receipt.mutationId
    requestedOperation := requestedOperation.getD receipt.requestedOperation
    appliedOperation := receipt.appliedOperation
    outcome := if deduplicated then .deduplicated else receipt.outcome
    oldFactId := receipt.oldFactId
    newFactId := receipt.newFactId
    reasonCode := receipt.reasonCode
    deduplicated := deduplicated }

/-- `normalize_memory_text`. -/
def normalizeMemoryText (value : String) : String :=
  .ofList (collapseSpaces (value.toList.map fun c =>
    if c.toNat ≤ 0x1f ∨ c.toNat = 0x7f then ' ' else c))

namespace MemoryMutationService

variable {M : Type} (services : MutationServices M)

def rejected (operation : MemoryMutationOperation) (reasonCode : String) : MemoryMutationResult :=
  { ok := false, mutationId := none, requestedOperation := operation, appliedOperation := .noop,
    outcome := .rejected, reasonCode := reasonCode }

def claimRequestedOperation : MemoryClaimOperation → MemoryMutationOperation
  | .correct => .correct
  | .retract => .invalidate
  | _ => .create

structure AppliedMutation where
  operation : MemoryMutationAppliedOperation
  outcome : MemoryMutationOutcome
  oldFactId : Option Nat
  newFactId : Option Nat
  reasonCode : String

def claimApplied (p : ProcessedClaim) : AppliedMutation :=
  match p.action with
  | .create => ⟨.create, .committed, none, p.factId, p.reasonCode⟩
  | .mergeEvidence => ⟨.mergeEvidence, .committed, p.factId, p.factId, p.reasonCode⟩
  | .supersede => ⟨.correct, .committed, none, p.factId, p.reasonCode⟩
  | .contest => ⟨.contest, .committedAsContested, none, p.factId, p.reasonCode⟩
  | .invalidate => ⟨.invalidate, .committed, p.factId, none, p.reasonCode⟩
  | _ => ⟨.noop, .noChange, none, none, p.reasonCode⟩

def optText (text : Option String) : Json :=
  text.elim .null .str

def canonicalTargetPayload (fact : MemoryFactCreate) (owners : MemoryFactCanonicalOwners) : Json :=
  .obj [("scope_type", .str fact.scopeType),
    ("canonical_subject_person_id", optText owners.subjectPersonId),
    ("canonical_subject_space_id", optText owners.subjectSpaceId),
    ("visibility_type", optText fact.visibilityType),
    ("canonical_visibility_person_id", optText owners.visibilityPersonId),
    ("canonical_visibility_space_id", optText owners.visibilitySpaceId)]

/-- `_fingerprint`. -/
def fingerprint (payload : Json) : String :=
  services.sha256 (encodeJson payload)

/-- `_same_target_owners`. -/
def sameTargetOwners (db : MemoryDb M) (left right : MemoryFactCanonicalOwners) : Bool :=
  let samePerson (a b : Option String) : Bool :=
    match a, b with
    | none, none => true
    | some a, some b => a == b ||
        (services.currentPersonId db a).isSome &&
          services.currentPersonId db a == services.currentPersonId db b
    | _, _ => false
  left == right ||
    left.subjectSpaceId == right.subjectSpaceId && left.visibilitySpaceId == right.visibilitySpaceId &&
      samePerson left.subjectPersonId right.subjectPersonId &&
      samePerson left.visibilityPersonId right.visibilityPersonId

/-- `_validated_claim_matches_event`. -/
def validatedClaimMatchesEvent (db : MemoryDb M) (claim : ValidatedMemoryClaim)
    (event : ChatEventRow) : Bool :=
  claim.evidence.eventId == some event.id &&
    claim.evidence.sourceSpeakerUserId == event.record.senderUserId &&
    services.ownersMatchEvent db claim event

/-- `find`. -/
def find (db : MemoryDb M) (idempotencyKey : String) : Option MemoryMutationReceipt :=
  db.receipts.get? idempotencyKey

/-- `person_enabled_condition` on the author of an event that has one. -/
def actorEnabled (db : MemoryDb M) (event : ChatEventRow) : Bool :=
  match event.record.authorPersonId with
  | none => true
  | some id => id = "" || services.personEnabled db id

/-- One call: the claim, its event, and the job it runs under. -/
structure Request where
  claim : ValidatedMemoryClaim
  event : ChatEventRow
  conversationKey : String
  job : MemoryJob
deriving DecidableEq

def Request.operation (r : Request) : MemoryMutationOperation :=
  claimRequestedOperation r.claim.operation

/-- What the reader leaves for the writer. -/
structure Prepared where
  request : Request
  targetOwners : MemoryFactCanonicalOwners
  sourceSnapshot : services.SourceProof
  claimFingerprint : String
  idempotencyKey : String
  targetFingerprint : String

/-- The writer's input. -/
structure Ready extends Prepared services where
  claimResolution : services.Resolution
  mutationId : String
  evidencePreparation : services.EvidencePreparation

/-- The first checks: a trusted event, and a job that is about it. -/
def checkTrigger (db : MemoryDb M) (claim : ValidatedMemoryClaim) (event : Option ChatEventRow)
    (conversationKey : String) (job : MemoryJob) :
    Except MemoryError (MemoryMutationResult ⊕ Request) :=
  let untrusted := .ok (.inl (rejected (claimRequestedOperation claim.operation)
    "untrusted_trigger_event"))
  match event with
  | none => untrusted
  | some event =>
    if event.record.direction ≠ .inbound ∨ event.record.authorKind ≠ some "person" ∨
        validatedClaimMatchesEvent services db claim event = false then untrusted
    else if job.eventId ≠ event.id then
      .error (.valueError "memory job claim does not own the source event")
    else .ok (.inr ⟨claim, event, conversationKey, job⟩)

/-- The fingerprints of a claim on its target. -/
def fingerprints (r : Request) (owners : MemoryFactCanonicalOwners) : String × String × String :=
  let target := canonicalTargetPayload r.claim.fact owners
  let claimFingerprint := fingerprint services (.obj [
    ("event_id", .int r.event.id),
    ("target", target),
    ("memory_key", .str (normalizeMemoryText r.claim.fact.memoryKey)),
    ("content", .str (services.casefold (normalizeMemoryText r.claim.fact.content))),
    ("claim", r.claim.fact.dump),
    ("evidence", r.claim.evidence.dump)])
  (claimFingerprint,
    fingerprint services (.obj [("automatic_claim", .str claimFingerprint)]),
    fingerprint services target)

/-- The identity session: owners, actor, and source snapshot. -/
def readTarget (db : MemoryDb M) (r : Request) :
    Except MemoryError (MemoryMutationResult ⊕ Prepared services) :=
  let read : Except MemoryError (Prepared services) := do
    let owners ← services.requestedTargetOwners db r.claim.fact
    require (actorEnabled services db r.event = true)
      (.mutationRejected "memory_resolution_snapshot_changed")
    let snapshot ← services.mutationSourceSnapshot db r.event r.claim.evidence
    let (claimFingerprint, idempotencyKey, targetFingerprint) := fingerprints services r owners
    return ⟨r, owners, snapshot, claimFingerprint, idempotencyKey, targetFingerprint⟩
  match read with
  | .ok p => .ok (.inr p)
  | .error .partitionResolution => .ok (.inl (rejected r.operation "canonical_identity_unavailable"))
  | .error e => .error e

/-- The duplicate looked for before the writer, and the resolution. -/
def resolveClaim (db : MemoryDb M) (p : Prepared services) (mutationId : String) :
    Except MemoryError (MemoryMutationResult ⊕ Ready services) :=
  match find db p.idempotencyKey with
  | some existing => .ok (.inl (.fromReceipt existing true (some p.request.operation)))
  | none => do
    let evidencePreparation ← services.prepareWrite db p.request.claim.fact
    return .inr { p with
      claimResolution := services.resolve p.request.claim p.request.event
      mutationId := mutationId
      evidencePreparation := evidencePreparation }

/-- `reserve`: the row that goes in before the resolution is applied. -/
def reservedReceipt (db : MemoryDb M) (m : Ready services) (createdAt : Int) :
    MemoryMutationReceipt :=
  { id := (db.receipts.rows.map (·.id)).foldl max 0 + 1
    mutationId := m.mutationId
    idempotencyKey := m.idempotencyKey
    claimFingerprint := m.claimFingerprint
    targetFingerprint := m.targetFingerprint
    triggerSourceType := if m.request.event.id = 0 then "execution" else "chat_event"
    triggerEventId := some m.request.event.id
    conversationKey := m.request.conversationKey
    currentGroupId := m.request.event.groupId
    turnOrigin := m.request.event.record.origin
    delegationMode := "automatic_extraction"
    triggerActorUserId := m.request.event.record.senderUserId
    decisionActorType := "worker"
    decisionActorId := some "memory_worker"
    executedByBotUserId := m.request.event.botUserId
    requestedOperation := m.request.operation
    createdAt := createdAt }

def reserve (db : MemoryDb M) (m : Ready services) (createdAt : Int) :
    Except MemoryError (MemoryDb M) := do
  require (db.receipts.get? m.idempotencyKey = none ∧
    ∀ r ∈ db.receipts.rows, r.mutationId ≠ m.mutationId) .integrity
  return { db with receipts := db.receipts.insert (reservedReceipt services db m createdAt) }

/-- `finalize`. -/
def finalize (db : MemoryDb M) (receiptId : Nat) (applied : AppliedMutation) : MemoryDb M :=
  { db with
    receipts := db.receipts.update (fun r => r.id == receiptId) fun r =>
      { r with
        appliedOperation := applied.operation
        oldFactId := applied.oldFactId
        newFactId := applied.newFactId
        outcome := applied.outcome
        reasonCode := .ofList (applied.reasonCode.toList.take 64) } }

/-- The target's owners as they stand now; one that no longer resolves has changed. -/
def currentOwners (db : MemoryDb M) (fact : MemoryFactCreate) :
    Except MemoryError MemoryFactCanonicalOwners :=
  match services.requestedTargetOwners db fact with
  | .error .partitionResolution => .error (.mutationRejected "memory_resolution_snapshot_changed")
  | r => r

/-- The checks the writer makes again, up to the fence. -/
def recheck (db : MemoryDb M) (m : Ready services) : Except MemoryError Unit := do
  let changed : MemoryError := .mutationRejected "memory_resolution_snapshot_changed"
  let current ← currentOwners services db m.request.claim.fact
  require (actorEnabled services db m.request.event = true) changed
  require (sameTargetOwners services db current m.targetOwners = true ∧
    services.mutationSourcesCurrent db m.sourceSnapshot = true) changed
  require (validatedClaimMatchesEvent services db m.request.claim m.request.event = true) changed
  db.queue.fence m.request.job

/-- `apply`, the body of the transaction; an exception rolls all of it back. -/
def apply (db : MemoryDb M) (m : Ready services) (createdAt : Int) :
    Except MemoryError (MemoryDb M × MemoryMutationResult) := do
  services.usePreparedWrite db m.evidencePreparation
  match find db m.idempotencyKey with
  | some duplicate => return (db, .fromReceipt duplicate true (some m.request.operation))
  | none =>
    recheck services db m
    let reserved := reservedReceipt services db m createdAt
    let db ← reserve services db m createdAt
    let (memory, processed) ← services.applyResolution db.memory m.claimResolution
    let db := finalize { db with memory := memory } reserved.id (claimApplied processed)
    let receipt ← expect (db.receipts.rows.find? fun r => r.id == reserved.id) .integrity
    return (db, .fromReceipt receipt false none)

/-- What an exception at the commit resolves to, by the original receipt. -/
def verify (db : MemoryDb M) (m : Ready services) (exc : MemoryError) :
    Except MemoryError MemoryMutationResult :=
  match find db m.idempotencyKey with
  | none => .error exc
  | some duplicate => .ok (.fromReceipt duplicate true (some m.request.operation))

end MemoryMutationService

end Yuki

import Mathlib.Data.List.Sort
import Yuki.Memory.Jobs

/-! Embedding jobs of one profile: a reader prepares, the writer checks again
what it prepared, and a vector is stored with the hash of the text it is for. -/

namespace Yuki.Embedding

inductive FactStatus
  | active | contested | superseded | invalidated
deriving DecidableEq

inductive ReviewState
  | legacyUnreviewed | verified | quarantined
deriving DecidableEq

inductive FactKind
  | fact | preference | episode
deriving DecidableEq

/-- The columns of `memory_facts` that a document or its guard reads. -/
structure FactRow where
  id : Nat
  status : FactStatus
  reviewState : ReviewState
  validUntil : Option Int
  updatedAt : Int
  kind : FactKind
  category : String
  memoryKey : String
  content : String
deriving DecidableEq

/-- `memory_embedding_jobs`, and `MemoryEmbeddingJob`, which copies a row. -/
structure EmbeddingJob where
  id : Nat
  factId : Nat
  profileId : Nat
  contentHash : String
  status : MemoryJobStatus
  attempts : Int
  nextAttemptAt : Int
  createdAt : Int
  updatedAt : Int
  errorCategory : Option String
deriving DecidableEq

/-- `memory_embeddings`. -/
structure EmbeddingRow where
  id : Nat
  factId : Nat
  profileId : Nat
  contentHash : String
  createdAt : Int
  updatedAt : Int
deriving DecidableEq

/-- A row of the Vec1 table of the profile. -/
structure VectorRow where
  rowid : Nat
  factId : Nat
  vector : List UInt8
deriving DecidableEq

structure EmbeddingWrite where
  jobId : Nat
  factId : Nat
  contentHash : String
  vectorBlob : List UInt8
  claimedAt : Int
deriving DecidableEq

structure Store where
  facts : Table FactRow.id
  jobs : Table EmbeddingJob.id
  nextJobId : Nat
  embeddings : Table EmbeddingRow.id
  nextEmbeddingId : Nat
  vectors : List VectorRow
  latestProfile : Nat

/-- The job columns a prepared page carries. -/
structure JobSeen where
  id : Nat
  contentHash : String
  status : MemoryJobStatus
  updatedAt : Int
  attempts : Int
deriving DecidableEq

structure PreparedRow where
  fact : FactRow
  vectorHash : Option String
  job : Option JobSeen
deriving DecidableEq

/-- An accepted write with the job and the fact the reader saw for it. -/
structure PreparedWrite where
  item : EmbeddingWrite
  job : EmbeddingJob
  row : Option FactRow
  digest : Option String
deriving DecidableEq

structure VectorRecord where
  factId : Nat
  contentHash : String
  vectorBlob : List UInt8
  stamp : Int
deriving DecidableEq

/-- A vector let through, with the write that asked for it and its clock reading. -/
structure Publication where
  write : PreparedWrite
  clock : Int
  record : VectorRecord
deriving DecidableEq

/-- `next_updated_at(previous)` at a clock reading. -/
def nextStamp (previous : Option Int) (clock : Int) : Int :=
  match previous with
  | some p => nextUpdatedAt p clock
  | none => clock

/-- `_eligible`. -/
def eligible (now : Int) (fact : FactRow) : Bool :=
  (fact.status = .active ∨ fact.status = .contested) && fact.reviewState ≠ .quarantined &&
    fact.validUntil.all fun t => now < t

/-- `_fact_guard`: every column read is as it was. -/
def Store.factGuard (s : Store) (row : FactRow) : Bool :=
  s.facts.get? row.id = some row

/-- The fact guard together with the eligibility of the stored fact. -/
def Store.eligibleFact (s : Store) (id : Nat) (now : Int) : Bool :=
  (s.facts.get? id).any (eligible now)

/-- `_claim_guard`. -/
def claimGuard (job row : EmbeddingJob) : Bool :=
  row.id = job.id ∧ row.factId = job.factId ∧ row.profileId = job.profileId ∧
    row.contentHash = job.contentHash ∧ row.status = .processing ∧ row.updatedAt = job.updatedAt ∧
    row.attempts = job.attempts

structure JobRepository where
  profile : Nat
  contentHashFields : FactKind → String → String → String → String

namespace JobRepository

variable (r : JobRepository)

def contentHash (fact : FactRow) : String :=
  r.contentHashFields fact.kind fact.category fact.memoryKey fact.content

def jobOf (s : Store) (factId : Nat) : Option EmbeddingJob :=
  s.jobs.rows.find? fun job => job.factId = factId ∧ job.profileId = r.profile

def embeddingOf (s : Store) (factId : Nat) : Option EmbeddingRow :=
  s.embeddings.rows.find? fun row => row.factId = factId ∧ row.profileId = r.profile

/-- The Vec1 row joined to the embedding of a fact. -/
def vectorOf (s : Store) (factId : Nat) : Option VectorRow := do
  let embedding ← r.embeddingOf s factId
  s.vectors.find? fun v => v.rowid = embedding.id ∧ v.factId = factId

def preparedRow (s : Store) (fact : FactRow) : PreparedRow where
  fact := fact
  vectorHash := if (r.vectorOf s fact.id).isSome then (r.embeddingOf s fact.id).map (·.contentHash)
    else none
  job := (r.jobOf s fact.id).map fun job =>
    { id := job.id, contentHash := job.contentHash, status := job.status
      updatedAt := job.updatedAt, attempts := job.attempts }

def missingOrChanged (s : Store) (fact : FactRow) : Bool :=
  (r.vectorOf s fact.id).isNone || (r.embeddingOf s fact.id).any fun e => e.updatedAt < fact.updatedAt

def preparePage (s : Store) (ids : Option (List Nat)) (afterId limit : Nat)
    (onlyMissingOrChanged : Bool) (now : Int) : List PreparedRow :=
  (((s.facts.rows.filter fun fact =>
    afterId < fact.id && eligible now fact && ids.all (fun is => decide (fact.id ∈ is)) &&
      (!onlyMissingOrChanged || r.missingOrChanged s fact)).insertionSort
        fun a b => a.id ≤ b.id).take limit).map (r.preparedRow s)

/-- Whether a prepared row asks for a job. -/
def wantsJob (force : Bool) (row : PreparedRow) : Bool :=
  let digest := r.contentHash row.fact
  !(row.vectorHash = some digest && !force) &&
    !(row.job.any fun job => job.contentHash = digest &&
      (job.status = .processing || !force && (job.status = .pending || job.status = .failed)))

def enqueueOne (s : Store) (onlyIfLatestProfile : Bool) (row : PreparedRow) (clock : Int) : Store :=
  let digest := r.contentHash row.fact
  let now := nextStamp (row.job.map (·.updatedAt)) clock
  let attempts := match row.job with
    | some job => if job.contentHash ≠ digest then 0 else job.attempts
    | none => 0
  if s.factGuard row.fact && s.eligibleFact row.fact.id now &&
      !(onlyIfLatestProfile && decide (r.profile < s.latestProfile)) then
    match r.jobOf s row.fact.id with
    | none =>
      { s with
        jobs := s.jobs.insert
          { id := s.nextJobId, factId := row.fact.id, profileId := r.profile, contentHash := digest
            status := .pending, attempts := attempts, nextAttemptAt := now, createdAt := now
            updatedAt := now, errorCategory := none }
        nextJobId := s.nextJobId + 1 }
    | some _ =>
      match row.job with
      | none => s
      | some seen =>
        { s with
          jobs := s.jobs.update
            (fun job => job.factId = row.fact.id ∧ job.profileId = r.profile ∧ job.id = seen.id ∧
              job.updatedAt = seen.updatedAt ∧ job.contentHash = seen.contentHash ∧
              job.status = seen.status)
            fun job => { job with
              contentHash := digest, status := .pending, attempts := attempts
              nextAttemptAt := now, updatedAt := now, errorCategory := none } }
  else s

/-- `_enqueue_prepared`; every candidate comes with its clock reading. -/
def enqueuePrepared (s : Store) (force onlyIfLatestProfile : Bool) (rows : List (PreparedRow × Int)) :
    Store :=
  (rows.filter fun row => r.wantsJob force row.1).foldl
    (fun s row => r.enqueueOne s onlyIfLatestProfile row.1 row.2) s

def jobsWithStatus (s : Store) (status : MemoryJobStatus) (afterId : Nat) : List EmbeddingJob :=
  ((s.jobs.rows.filter fun job =>
    afterId < job.id && job.profileId = r.profile && job.status = status).insertionSort
      fun a b => a.id ≤ b.id).take 128

/-- `UPDATE … WHERE claim_guard`. -/
def updateClaim (s : Store) (claim : EmbeddingJob) (f : EmbeddingJob → EmbeddingJob)
    (hf : ∀ job, (f job).id = job.id := by intro job; rfl) : Store :=
  { s with jobs := s.jobs.update (claimGuard claim) f hf }

def recoverOne (s : Store) (claim : EmbeddingJob) (clock : Int) : Store :=
  let now := nextUpdatedAt claim.updatedAt clock
  updateClaim s claim fun job => { job with
    status := .pending, nextAttemptAt := now, updatedAt := now
    errorCategory := some "embedding_worker_interrupted" }

def due (now : Int) (job : EmbeddingJob) : Bool :=
  job.profileId = r.profile ∧ job.status = .pending ∧ job.nextAttemptAt ≤ now

/-- The reader of `claim`. -/
def claimableIds (s : Store) (limit : Nat) (now : Int) : List Nat :=
  (((s.jobs.rows.filter (r.due now)).insertionSort fun a b => a.id ≤ b.id).take
    (min limit 256)).map (·.id)

def claimWanted (ids : List Nat) (now : Int) (job : EmbeddingJob) : Bool :=
  decide (job.id ∈ ids) && r.due now job

/-- The writer of `claim`, with the rows it returns. -/
def claim (s : Store) (ids : List Nat) (now : Int) : Store × List EmbeddingJob :=
  let take : EmbeddingJob → EmbeddingJob := fun job =>
    { job with status := .processing, attempts := job.attempts + 1, updatedAt := now }
  ({ s with jobs := s.jobs.update (r.claimWanted ids now) take },
    (s.jobs.rows.filter (r.claimWanted ids now)).map take)

/-- The reader of `_complete_page`. -/
def prepareWrites (s : Store) (writes : List EmbeddingWrite) (now : Int) : List PreparedWrite :=
  writes.filterMap fun item =>
    match (s.jobs.get? item.jobId).filter (fun job => job.profileId = r.profile) with
    | none => none
    | some job =>
      if job.factId ≠ item.factId ∨ job.contentHash ≠ item.contentHash ∨ job.status ≠ .processing ∨
          job.updatedAt ≠ item.claimedAt then none
      else
        let row := s.facts.get? item.factId
        some { item := item, job := job, row := row
               digest := (row.filter (eligible now)).map r.contentHash }

/-- The conditions under which the writer takes a write. -/
def accepts (s : Store) (w : PreparedWrite) (stamp : Int) (job : EmbeddingJob) : Bool :=
  claimGuard w.job job && w.row.all s.factGuard &&
    (w.digest.isNone || w.row.all fun row => s.eligibleFact row.id stamp)

/-- One write under the writer, with the vector it lets through. -/
def completeOne (s : Store) (w : PreparedWrite) (clock : Int) : Store × Option VectorRecord :=
  let stamp := nextUpdatedAt w.job.updatedAt clock
  let changed := w.digest.filter fun digest => digest ≠ w.item.contentHash
  if s.jobs.rows.any (accepts s w stamp) then
    ({ s with
        jobs := s.jobs.update (accepts s w stamp) fun job => { job with
          status := if changed.isSome then .pending else .done
          contentHash := changed.getD job.contentHash
          attempts := if changed.isSome then 0 else job.attempts
          nextAttemptAt := if changed.isSome then stamp else job.nextAttemptAt
          updatedAt := stamp
          errorCategory := none } },
      if w.digest = some w.item.contentHash then
        some { factId := w.item.factId, contentHash := w.item.contentHash
               vectorBlob := w.item.vectorBlob, stamp := stamp }
      else none)
  else
    (updateClaim s w.job fun job => { job with
      status := .pending, updatedAt := stamp, nextAttemptAt := stamp
      errorCategory := some "embedding_input_changed" }, none)

/-- The metadata of one record, with the ids it returns. -/
def storeMetadata (s : Store) (record : VectorRecord) : Store × Nat × Nat :=
  match r.embeddingOf s record.factId with
  | some row =>
    ({ s with embeddings := s.embeddings.update (fun e => e.id = row.id) fun e =>
        { e with contentHash := record.contentHash, updatedAt := record.stamp } },
      row.id, record.factId)
  | none =>
    ({ s with
        embeddings := s.embeddings.insert
          { id := s.nextEmbeddingId, factId := record.factId, profileId := r.profile
            contentHash := record.contentHash, createdAt := record.stamp, updatedAt := record.stamp }
        nextEmbeddingId := s.nextEmbeddingId + 1 }, s.nextEmbeddingId, record.factId)

def storeAllMetadata (s : Store) : List VectorRecord → Store × List (Nat × Nat)
  | [] => (s, [])
  | record :: records =>
    let first := r.storeMetadata s record
    let rest := storeAllMetadata first.1 records
    (rest.1, first.2 :: rest.2)

/-- `store_vectors`: the metadata, then the raw values under the same row ids. -/
def storeVectors (s : Store) (records : List VectorRecord) : Store :=
  let accepted := r.storeAllMetadata s records
  let payloads := Dict.ofList (records.map fun record => (record.factId, record.vectorBlob))
  { accepted.1 with
    vectors := (accepted.1.vectors.filter fun v => decide (v.rowid ∉ accepted.2.map (·.1))) ++
      accepted.2.filterMap fun row => (payloads.lookup row.2).map fun blob =>
        { rowid := row.1, factId := row.2, vector := blob } }

/-- The writes of a page in turn, with those that let a vector through. -/
def completeWrites (s : Store) : List (PreparedWrite × Int) → Store × List Publication
  | [] => (s, [])
  | (w, clock) :: ws =>
    let first := completeOne s w clock
    let rest := completeWrites first.1 ws
    (rest.1, (first.2.map fun record => ⟨w, clock, record⟩).toList ++ rest.2)

/-- The writer of `_complete_page`. -/
def completePage (s : Store) (ws : List (PreparedWrite × Int)) : Store × List Publication :=
  let done := completeWrites s ws
  (r.storeVectors done.1 (done.2.map (·.record)), done.2)

def skipOne (s : Store) (job : EmbeddingJob) (clock : Int) : Store :=
  updateClaim s job fun row => { row with
    status := .done, updatedAt := nextUpdatedAt job.updatedAt clock, errorCategory := none }

def skipMany (s : Store) (jobs : List (EmbeddingJob × Int)) : Store :=
  jobs.foldl (fun s job => skipOne s job.1 job.2) s

/-- What `fail_many` is told beside the jobs; the delay counts microseconds. -/
structure Failure where
  errorCategory : String
  retryable : Bool
  initialDelay : Nat
deriving DecidableEq

def failOne (s : Store) (f : Failure) (job : EmbeddingJob) (clock : Int) : Store :=
  let now := nextUpdatedAt job.updatedAt clock
  updateClaim s job fun row => { row with
    status := if f.retryable then .pending else .failed
    updatedAt := now
    nextAttemptAt := if f.retryable then now + f.initialDelay else now
    errorCategory := some (String.ofList (f.errorCategory.toList.take 64)) }

def failMany (s : Store) (f : Failure) (jobs : List (EmbeddingJob × Int)) : Store :=
  jobs.foldl (fun s job => failOne s f job.1 job.2) s

def retryOne (s : Store) (seen : JobSeen) (clock : Int) : Store :=
  let stamp := nextUpdatedAt seen.updatedAt clock
  { s with
    jobs := s.jobs.update
      (fun job => job.id = seen.id ∧ job.profileId = r.profile ∧ job.status = .failed ∧
        job.updatedAt = seen.updatedAt ∧ job.contentHash = seen.contentHash ∧
        job.attempts = seen.attempts)
      fun job => { job with
        status := .pending, attempts := 0, nextAttemptAt := stamp, updatedAt := stamp
        errorCategory := none } }

/-- Facts change in any way; the rows of a deleted fact go with it. -/
def changeFacts (s : Store) (facts : Table FactRow.id) : Store :=
  let gone : Nat → Bool := fun id => (facts.get? id).isNone
  { s with
    facts := facts
    jobs := s.jobs.delete fun job => gone job.factId
    embeddings := s.embeddings.delete fun row => gone row.factId
    vectors := s.vectors.filter fun v => !(s.embeddings.rows.any fun row =>
      row.id = v.rowid && row.profileId = r.profile && gone row.factId) }

end JobRepository

/-! Any number of workers, each call as the steps of its reader and its writer. -/

/-- The store, what readers have returned so far, and the claims and vectors of
the run, newest first. -/
structure World where
  store : Store
  pages : List (List PreparedRow) := []
  interrupted : List (List EmbeddingJob) := []
  dueIds : List (List Nat) := []
  writes : List (List PreparedWrite) := []
  failed : List (List JobSeen) := []
  claims : List (Nat × Int) := []
  published : List Publication := []

inductive Event
  | preparePage (ids : Option (List Nat)) (afterId limit : Nat) (onlyMissingOrChanged : Bool)
      (now : Int)
  | enqueuePrepared (force onlyIfLatestProfile : Bool) (rows : List (PreparedRow × Int))
  | findInterrupted (afterId : Nat)
  | recoverInterrupted (jobs : List (EmbeddingJob × Int))
  | findDue (limit : Nat) (now : Int)
  | claim (ids : List Nat) (now : Int)
  | prepareWrites (writes : List EmbeddingWrite) (now : Int)
  | completePage (writes : List (PreparedWrite × Int))
  | skipMany (jobs : List (EmbeddingJob × Int))
  | failMany (failure : JobRepository.Failure) (jobs : List (EmbeddingJob × Int))
  | findFailed (afterId : Nat)
  | retryFailed (jobs : List (JobSeen × Int))
  | changeFacts (facts : Table FactRow.id)
  | newProfile (id : Nat)

namespace JobRepository

variable (r : JobRepository)

def seenOf (job : EmbeddingJob) : JobSeen where
  id := job.id
  contentHash := job.contentHash
  status := job.status
  updatedAt := job.updatedAt
  attempts := job.attempts

-- The decision whether a list of ids was discovered refers to this one.
local instance : LawfulBEq (List Nat) := inferInstance

/-- One step; a writer works on what some reader returned before it. -/
def step (w : World) : Event → Option World
  | .preparePage ids afterId limit only now =>
    some { w with pages := r.preparePage w.store ids afterId limit only now :: w.pages }
  | .enqueuePrepared force latest rows =>
    if rows.map (·.1) ∈ w.pages then
      some { w with store := r.enqueuePrepared w.store force latest rows }
    else none
  | .findInterrupted afterId =>
    some { w with interrupted := r.jobsWithStatus w.store .processing afterId :: w.interrupted }
  | .recoverInterrupted jobs =>
    if jobs.map (·.1) ∈ w.interrupted then
      some { w with store := jobs.foldl (fun s job => recoverOne s job.1 job.2) w.store }
    else none
  | .findDue limit now => some { w with dueIds := r.claimableIds w.store limit now :: w.dueIds }
  | .claim ids now =>
    if ids ∈ w.dueIds then
      let taken := r.claim w.store ids now
      some { w with
        store := taken.1
        claims := (taken.2.map fun job => (job.id, job.updatedAt)) ++ w.claims }
    else none
  | .prepareWrites writes now =>
    some { w with writes := r.prepareWrites w.store writes now :: w.writes }
  | .completePage writes =>
    if writes.map (·.1) ∈ w.writes then
      let done := r.completePage w.store writes
      some { w with store := done.1, published := done.2.reverse ++ w.published }
    else none
  | .skipMany jobs => some { w with store := skipMany w.store jobs }
  | .failMany failure jobs => some { w with store := failMany w.store failure jobs }
  | .findFailed afterId =>
    some { w with failed := (r.jobsWithStatus w.store .failed afterId).map seenOf :: w.failed }
  | .retryFailed jobs =>
    if jobs.map (·.1) ∈ w.failed then
      some { w with store := jobs.foldl (fun s job => r.retryOne s job.1 job.2) w.store }
    else none
  | .changeFacts facts => some { w with store := r.changeFacts w.store facts }
  | .newProfile id => some { w with store := { w.store with latestProfile := id } }

end JobRepository

end Yuki.Embedding

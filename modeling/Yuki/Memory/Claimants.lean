import Yuki.Memory.Tokens
import Yuki.Memory.Mutation

/-! Any number of workers over one queue: every session is one step, and a call
that was cut short simply takes no further step. -/

namespace Yuki

open MemoryMutationService

/-- A call between two of its sessions. -/
inductive ClaimantTask {M : Type} (services : MutationServices M)
  | claiming (p : MemoryJobRepository.Preparation)
  | triggered (r : Request)
  | prepared (p : Prepared services)
  | ready (m : Ready services)
  | verifying (m : Ready services) (exc : MemoryError)
  | completing (job : MemoryJob) (outcome : MemoryRebuildJobOutcome) (category : Option String)
      (now : Int)
  | failing (job : MemoryJob) (category : String) (now : Int)

inductive ClaimantAction (M : Type)
  /-- The clock moves on. -/
  | tick (now : Int)
  /-- Other code changes events, conversations, and Memory rows. -/
  | outside (events : Table ChatEventRow.id) (conversations : Table ConversationWatermark.id)
      (memory : M)
  | claim (limit : Nat)
  | claimReadyBatch (limits : MemoryJobRepository.BatchLimits) (now : Option Int)
  | commitClaims (task : Nat) (readings : List Int) (acknowledged : Bool)
  | checkTrigger (held : Nat) (claim : ValidatedMemoryClaim) (event : Option ChatEventRow)
      (conversationKey : String)
  | readTarget (task : Nat)
  | resolveClaim (task : Nat) (mutationId : String)
  | commitMutation (task : Nat) (acknowledged : Bool)
  | verify (task : Nat)
  | complete (held : Nat) (outcome : MemoryRebuildJobOutcome) (category : Option String)
  | commitComplete (task : Nat)
  | fail (held : Nat) (category : String)
  | commitFail (task : Nat)
  | crash (task : Nat)

/-- The database, the calls under way, and what happened so far. -/
structure Claimants {M : Type} (services : MutationServices M) where
  clock : Int
  db : MemoryDb M
  tasks : List (ClaimantTask services) := []
  /-- Every job a claim returned, newest first. -/
  handed : List MemoryJob := []
  /-- Every token a claim committed, newest first. -/
  issued : List (Nat × Int) := []
  /-- The key of every transaction that applied a resolution, newest first. -/
  applied : List String := []
  /-- What the calls of `mutate_validated_claim` returned or raised, newest first. -/
  results : List (Except MemoryError MemoryMutationResult) := []

namespace Claimants

variable {M : Type} {services : MutationServices M}

def withJobs (w : Claimants services) (queue : JobQueue) : Claimants services :=
  { w with db := { w.db with queue := queue } }

/-- A call has a next session, or has returned. -/
def next (w : Claimants services) (i : Nat) (task : Option (ClaimantTask services)) :
    Claimants services :=
  { w with tasks := w.tasks.eraseIdx i ++ task.toList }

def start (w : Claimants services) (task : ClaimantTask services) : Claimants services :=
  { w with tasks := w.tasks ++ [task] }

def returned (w : Claimants services) (result : Except MemoryError MemoryMutationResult) :
    Claimants services :=
  { w with results := result :: w.results }

/-- One session, or one move of the surroundings; `none` where it cannot take place. -/
def step (w : Claimants services) : ClaimantAction M → Option (Claimants services)
  | .tick now => if w.clock ≤ now then some { w with clock := now } else none
  | .outside events conversations memory =>
    some { w with
      db := { w.db with
        queue := { w.db.queue with events := events, conversations := conversations }
        memory := memory } }
  | .claim limit =>
    some (w.start (.claiming (MemoryJobRepository.prepareClaim w.db.queue w.clock limit)))
  | .claimReadyBatch limits now =>
    match MemoryJobRepository.prepareReadyBatch w.db.queue (now.getD w.clock) limits with
    | .error _ => some w
    | .ok p => some (w.start (.claiming p))
  | .commitClaims i readings acknowledged =>
    match w.tasks[i]? with
    | some (.claiming p) =>
      if readings.length = p.claims.length ∧ (w.clock :: readings).Pairwise (· ≤ ·) then
        let (queue, accepted) := w.db.queue.commitJobClaims (p.claims.zip readings)
        some { (w.next i none).withJobs queue with
          clock := readings.getLastD w.clock
          issued := accepted ++ w.issued
          handed := if acknowledged then (JobQueue.acceptedJobs p.jobs accepted).reverse ++ w.handed
            else w.handed }
      else none
    | _ => none
  | .checkTrigger held claim event conversationKey =>
    w.handed[held]?.map fun job =>
      match MemoryMutationService.checkTrigger services w.db claim event conversationKey job with
      | .error e => w.returned (.error e)
      | .ok (.inl result) => w.returned (.ok result)
      | .ok (.inr r) => w.start (.triggered r)
  | .readTarget i =>
    match w.tasks[i]? with
    | some (.triggered r) =>
      match MemoryMutationService.readTarget services w.db r with
      | .error e => some ((w.next i none).returned (.error e))
      | .ok (.inl result) => some ((w.next i none).returned (.ok result))
      | .ok (.inr p) => some (w.next i (some (.prepared p)))
    | _ => none
  | .resolveClaim i mutationId =>
    match w.tasks[i]? with
    | some (.prepared p) =>
      match MemoryMutationService.resolveClaim services w.db p mutationId with
      | .error e => some ((w.next i none).returned (.error e))
      | .ok (.inl result) => some ((w.next i none).returned (.ok result))
      | .ok (.inr m) => some (w.next i (some (.ready m)))
    | _ => none
  | .commitMutation i acknowledged =>
    match w.tasks[i]? with
    | some (.ready m) =>
      match MemoryMutationService.apply services w.db m w.clock with
      | .error e => some (w.next i (some (.verifying m e)))
      | .ok (db, result) =>
        let w' := { w with
          db := db
          applied := if result.deduplicated then w.applied else m.idempotencyKey :: w.applied }
        some (if acknowledged then (w'.next i none).returned (.ok result)
          else w'.next i (some (.verifying m .connection)))
    | _ => none
  | .verify i =>
    match w.tasks[i]? with
    | some (.verifying m exc) =>
      some ((w.next i none).returned (MemoryMutationService.verify services w.db m exc))
    | _ => none
  | .complete held outcome category =>
    w.handed[held]?.map fun job => w.start (.completing job outcome category w.clock)
  | .commitComplete i =>
    match w.tasks[i]? with
    | some (.completing job outcome category now) =>
      match MemoryJobRepository.complete w.db.queue job outcome category now with
      | .error _ => some (w.next i none)
      | .ok queue => some ((w.next i none).withJobs queue)
    | _ => none
  | .fail held category =>
    w.handed[held]?.map fun job => w.start (.failing job category w.clock)
  | .commitFail i =>
    match w.tasks[i]? with
    | some (.failing job category now) =>
      match MemoryJobRepository.fail w.db.queue job category now with
      | .error _ => some (w.next i none)
      | .ok queue => some ((w.next i none).withJobs queue)
    | _ => none
  | .crash i => some (w.next i none)

def Step (w : Claimants services) (a : ClaimantAction M) (w' : Claimants services) : Prop :=
  w.step a = some w'

/-- A job is given up at a time no earlier than its token. -/
def timely (w : Claimants services) : ClaimantAction M → Bool
  | .fail held _ => w.handed[held]?.all fun job => job.updatedAt ≤ w.clock
  | _ => true

def TimelyStep (w : Claimants services) (a : ClaimantAction M) (w' : Claimants services) : Prop :=
  w.timely a = true ∧ w.Step a w'

/-- The state after a schedule of steps. -/
def play (w : Claimants services) : List (ClaimantAction M) → Option (Claimants services)
  | [] => some w
  | a :: as => (w.step a).bind fun w' => w'.play as

/-- A schedule whose failures are all timely. -/
def playTimely (w : Claimants services) : List (ClaimantAction M) → Option (Claimants services)
  | [] => some w
  | a :: as => if w.timely a then (w.step a).bind fun w' => w'.playTimely as else none

theorem run_of_play {w w' : Claimants services} {as : List (ClaimantAction M)}
    (h : w.play as = some w') : Run Step w as w' := by
  induction as generalizing w with
  | nil =>
    obtain rfl := Option.some.inj h
    exact .nil w
  | cons a as ih =>
    obtain ⟨v, hv, h⟩ := Option.bind_eq_some_iff.mp h
    exact .cons hv (ih h)

theorem run_of_playTimely {w w' : Claimants services} {as : List (ClaimantAction M)}
    (h : w.playTimely as = some w') : Run TimelyStep w as w' := by
  induction as generalizing w with
  | nil =>
    obtain rfl := Option.some.inj h
    exact .nil w
  | cons a as ih =>
    rw [playTimely, Option.ite_none_right_eq_some] at h
    obtain ⟨ht, h⟩ := h
    obtain ⟨v, hv, h⟩ := Option.bind_eq_some_iff.mp h
    exact .cons ⟨ht, hv⟩ (ih h)

/-- No call has been made yet. -/
structure Fresh (w : Claimants services) : Prop where
  tasks : w.tasks = []
  handed : w.handed = []
  issued : w.issued = []
  applied : w.applied = []

/-- The job under which a step commits. -/
def actor (w : Claimants services) : ClaimantAction M → Option MemoryJob
  | .commitMutation i _ | .commitComplete i | .commitFail i =>
    match w.tasks[i]? with
    | some (.ready m) => some m.request.job
    | some (.completing job _ _ _) => some job
    | some (.failing job _ _) => some job
    | _ => none
  | _ => none

end Claimants

/-- The identity of a claim: its job and its token. -/
def MemoryJob.token (job : MemoryJob) : Nat × Int :=
  (job.id, job.updatedAt)

end Yuki

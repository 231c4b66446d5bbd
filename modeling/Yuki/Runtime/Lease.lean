import Yuki.Runtime.Tree

/-! Activation leases on a conversation scope or on one worker row. Checks made
before the writer opens read an earlier snapshot `seen`. -/

namespace Yuki

structure WorkLease where
  conversationId : String
  generation : Int
  cancelEpoch : Int
  fence : Int
  owner : String
  workId : Option String := none
deriving DecidableEq, Repr

/-- The row a lease was taken on. -/
inductive LeaseRow
  | scope (conversationId : String)
  | worker (workId : String)
deriving DecidableEq, Repr

namespace WorkLease

def row (l : WorkLease) : LeaseRow :=
  match l.workId with
  | some w => .worker w
  | none => .scope l.conversationId

/-- `if lease.work_id`: the empty id counts as no id. -/
def worker (l : WorkLease) : Option String :=
  l.workId.filter fun w => w ≠ ""

def holdsChild (l : WorkLease) (w : String) (db : Db) (now : Time) (c : ChildRow) : Bool :=
  c.workId = w ∧ c.cancelEpoch = l.cancelEpoch ∧ c.fence = l.fence ∧ c.owner = some l.owner ∧
    now < c.leaseUntil ∧ c.archivedAt = none ∧
    db.conversationGeneration l.conversationId = some l.generation

def holdsScope (l : WorkLease) (now : Time) (s : ScopeRow) : Bool :=
  s.conversationId = l.conversationId ∧ s.generation = l.generation ∧
    s.cancelEpoch = l.cancelEpoch ∧ s.fence = l.fence ∧ s.owner = some l.owner ∧
    now < s.leaseUntil

/-- Whether `_fence` selects a row. -/
def fenced (l : WorkLease) (db : Db) (now : Time) : Bool :=
  match l.worker with
  | some w => db.children.rows.any (l.holdsChild w db now)
  | none => db.scopes.rows.any (l.holdsScope now)

end WorkLease

namespace Db

/-- `UPDATE … WHERE _fence(lease)` of the two lease columns. -/
def setLease (db : Db) (l : WorkLease) (now : Time) (owner : Option String → Option String)
    (leaseUntil : Time) : Db :=
  match l.worker with
  | some w =>
    { db with
      children := db.children.update (l.holdsChild w db now) fun c =>
        { c with owner := owner c.owner, leaseUntil := leaseUntil } }
  | none =>
    { db with
      scopes := db.scopes.update (l.holdsScope now) fun s =>
        { s with owner := owner s.owner, leaseUntil := leaseUntil } }

end Db

namespace WorkRepository

/-- `_assert_lease`. -/
def assertLease (db : Db) (now : Time) (lease : WorkLease) : Except Err Unit :=
  if lease.fenced db now then .ok () else .error (.workConflict "work_activation_obsolete")

/-- The rejection fast path of `acquire`. -/
def observedFree (seen : Db) (seenAt : Time) (conversationId : String) (generation : Int) : Bool :=
  match seen.conversationGeneration conversationId with
  | none => false
  | some observed => observed == generation &&
    match seen.scopes.get? conversationId with
    | none => true
    | some s => s.generation == generation && !decide (seenAt < s.leaseUntil)

/-- `acquire`; `owner` is the fresh owner id. -/
def acquire (seen : Db) (seenAt : Time) (db : Db) (now : Time) (conversationId : String)
    (generation : Int) (seconds : Time) (owner : String) : Except Err (Db × Option WorkLease) :=
  if ¬ (1 ≤ seconds ∧ seconds ≤ 300) then .error (.valueError "invalid_work_lease_duration")
  else if !observedFree seen seenAt conversationId generation then .ok (db, none)
  else if db.conversationGeneration conversationId ≠ some generation then .ok (db, none)
  else match db.scopes.get? conversationId with
    | none =>
      .ok ({ db with
          scopes := db.scopes.insert
            ⟨conversationId, generation, 0, 1, some owner, now + seconds⟩ },
        some ⟨conversationId, generation, 0, 1, owner, none⟩)
    | some s =>
      if s.generation = generation ∧ s.leaseUntil ≤ now then
        .ok ({ db with
            scopes := db.scopes.update (fun t => t.conversationId = conversationId) fun t =>
              { t with owner := some owner, leaseUntil := now + seconds, fence := t.fence + 1 } },
          some ⟨conversationId, generation, s.cancelEpoch, s.fence + 1, owner, none⟩)
      else .ok (db, none)

def renew (seen : Db) (seenAt : Time) (db : Db) (now : Time) (lease : WorkLease)
    (seconds : Time) : Except Err (Db × Bool) :=
  if ¬ (1 ≤ seconds ∧ seconds ≤ 300) then .error (.valueError "invalid_work_lease_duration")
  else if !lease.fenced seen seenAt then .ok (db, false)
  else .ok (db.setLease lease now id (now + seconds), lease.fenced db now)

def release (seen : Db) (seenAt : Time) (db : Db) (now : Time) (lease : WorkLease) :
    Except Err (Db × Unit) :=
  if !lease.fenced seen seenAt then .ok (db, ())
  else .ok (db.setLease lease now (fun _ => none) 0, ())

/-- `cancel_in_session`: the hard boundary of a conversation. -/
def cancelInSession (db : Db) (now : Time) (conversationId : String) (generation : Option Int) :
    Db :=
  let ofConversation (w : WorkRow) : Bool := w.conversationId == conversationId
  { db with
    scopes := db.scopes.update (fun s => s.conversationId = conversationId) fun s =>
      { s with cancelEpoch := s.cancelEpoch + 1, fence := s.fence + 1, owner := none,
               leaseUntil := 0, generation := generation.getD s.generation }
    children := db.children.update (fun c => (db.works.get? c.workId).any ofConversation) fun c =>
      { c with owner := none, leaseUntil := 0, cancelEpoch := c.cancelEpoch + 1 }
    works := db.works.update (fun w => ofConversation w && !w.state.terminal) fun w =>
      { w with state := .cancelled, reason := some "hard_boundary",
               checkpointJson := Sql.jsonRemove w.checkpointJson ["accepted_control"],
               revision := w.revision + 1, updated := now }
    inputs := db.inputs.update
      (fun i => i.conversationId == conversationId &&
        (i.state == .pending || i.state == .staged)) fun i => { i with state := .cancelled } }

end WorkRepository

/-- `bump_canonical_generation`: the conversation moves on and its old work is cut off. -/
def bumpCanonicalGeneration (db : Db) (now : Time) (conversationId : String) :
    Except Err (Db × Int) :=
  match db.conversations.get? conversationId with
  | none => .error (.runtime "unclassified")
  | some c =>
    .ok (WorkRepository.cancelInSession
        { db with
          conversations := db.conversations.update (fun r => r.id = conversationId) fun r =>
            { r with generation := r.generation + 1 } }
        now conversationId (some (c.generation + 1)),
      c.generation + 1)

/-- `stop_owned_execution`: withdraws the authority of a subtree. -/
def stopOwnedExecution (db : Db) (now : Time) (identity : String) (reason : Option String) : Db :=
  let tree := db.isDescendant identity true
  { db with
    works := db.works.update (fun w => tree w.id && w.id != identity && !w.state.terminal) fun w =>
      { w with state := .cancelled, reason := reason,
               checkpointJson := Sql.jsonRemove w.checkpointJson ["accepted_control"],
               revision := w.revision + 1, updated := now }
    children := db.children.update (fun c => tree c.workId) fun c =>
      { c with owner := none, leaseUntil := 0, cancelEpoch := c.cancelEpoch + 1 }
    inputs := db.inputs.update
      (fun i => i.workId.any tree && (i.state == .pending || i.state == .staged)) fun i =>
        { i with state := .cancelled }
    waits := db.waits.update (fun w => tree w.workId && w.status == .active) fun w =>
      { w with status := .cancelled, updated := now } }

namespace SubagentRepository

/-- `SubagentRepository.acquire`; `owner` is the fresh owner id. -/
def acquire (db : Db) (now : Time) (identity owner : String) :
    Except Err (Db × Option WorkLease) :=
  match db.works.get? identity with
  | none => .ok (db, none)
  | some row =>
    if row.state ≠ .queued ∧ row.state ≠ .running then .ok (db, none)
    else if db.conversationGeneration row.conversationId ≠ some row.generation then
      .ok ({ db with
          works := db.works.update (fun w => w.id = identity) fun w =>
            { w with state := .cancelled, reason := some "generation_obsolete",
                     checkpointJson := Sql.jsonRemove w.checkpointJson ["accepted_control"],
                     updated := now } }, none)
    else match db.children.get? identity with
      | none => .ok (db, none)
      | some claimed =>
        if claimed.leaseUntil ≤ now ∧ claimed.archivedAt = none then
          .ok ({ db with
              children := db.children.update (fun c => c.workId = identity) fun c =>
                { c with owner := some owner, leaseUntil := now + 60, fence := c.fence + 1 }
              works := db.works.update (fun w => w.id = identity) fun w =>
                { w with state := .running, updated := now } },
            some ⟨row.conversationId, row.generation, claimed.cancelEpoch, claimed.fence + 1, owner,
              some identity⟩)
        else .ok (db, none)

end SubagentRepository

end Yuki

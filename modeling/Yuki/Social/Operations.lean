import Yuki.Identity.Persons
import Yuki.Lib.JsonOrder
import Yuki.Lib.JsonText
import Yuki.Lib.Sql

/-! Social operations: durable claims for sends, and the sessions that prepare,
claim, settle and recover them. -/

namespace Yuki.Social

inductive OperationStatus
  | prepared | executing | succeeded | failed | uncertain
deriving DecidableEq, Repr

inductive SocialAction
  | sendMessage | sendMessageSequence | sendFileCaption | pokePerson | recallOwnMessage
deriving DecidableEq, Repr

def SocialAction.name : SocialAction → String
  | .sendMessage => "send_message"
  | .sendMessageSequence => "send_message_sequence"
  | .sendFileCaption => "send_file_caption"
  | .pokePerson => "poke_person"
  | .recallOwnMessage => "recall_own_message"

inductive TargetKind
  | person | space
deriving DecidableEq, Repr

def TargetKind.name : TargetKind → String
  | .person => "person"
  | .space => "space"

@[ext] structure SocialTarget where
  kind : TargetKind
  id : String
deriving DecidableEq, Repr

inductive SocialError
  | invalidOperation | idempotencyConflict | targetNotFound | invalidTransition
  | invalidErrorCategory | invalidEventReference | effectConflict | integrity
deriving DecidableEq, Repr

structure SocialOperation where
  id : String
  sourceTurnId : String
  toolCallId : String
  sourceConversationId : String
  action : SocialAction
  payloadHash : String
  target : SocialTarget
  presenceId : Option String := none
  status : OperationStatus := .prepared
  platformReference : Option String := none
  errorCategory : Option String := none
  createdAt : Int
  updatedAt : Int
  eventId : Option Int := none
  originalEventId : Option Int := none
  originalConversationId : Option String := none
  plannedParts : Option Int := none
  preparedJson : Option Json := none
deriving DecidableEq, Repr

/-- The unique key of a call. -/
def SocialOperation.call (row : SocialOperation) : String × String :=
  (row.sourceTurnId, row.toolCallId)

/-- `uq_social_operation_call`. -/
def OnePerCall (rows : List SocialOperation) : Prop :=
  ∀ r ∈ rows, ∀ r' ∈ rows, r.call = r'.call → r = r'

structure OperationTable where
  table : Table SocialOperation.id
  unique : OnePerCall table.rows

structure EmojiIntent where
  sourceJson : Json
  closed : Bool
deriving DecidableEq, Repr

structure ChatEvent where
  id : Int
  conversationId : Option String
deriving DecidableEq, Repr

structure SocialStore where
  operations : OperationTable
  persons : Table Identity.Person.id
  spaces : List String
  intents : List EmojiIntent
  events : List ChatEvent

structure SocialReceipt where
  operationId : String
  action : SocialAction
  status : OperationStatus
  target : SocialTarget
  presenceId : Option String
  platformReference : Option String
  eventId : Option Int
  originalEventId : Option Int
  originalConversationId : Option String
  errorCategory : Option String
  payloadHash : String
  prepared : Option Json
deriving DecidableEq, Repr

/-- `_receipt`. -/
def receipt (row : SocialOperation) : SocialReceipt where
  operationId := row.id
  action := row.action
  status := row.status
  target := row.target
  presenceId := row.presenceId
  platformReference := row.platformReference
  eventId := row.eventId
  originalEventId := row.originalEventId
  originalConversationId := row.originalConversationId
  errorCategory := row.errorCategory
  payloadHash := row.payloadHash
  prepared := row.preparedJson

/-! Rows. -/

namespace OperationTable

def empty : OperationTable :=
  ⟨.empty, fun _ h => nomatch h⟩

def rows (t : OperationTable) : List SocialOperation :=
  t.table.rows

/-- The row of a call. -/
def find? (t : OperationTable) (call : String × String) : Option SocialOperation :=
  t.rows.find? fun row => decide (row.call = call)

/-- An insert fails where its id or its call is taken. -/
def add (t : OperationTable) (row : SocialOperation) : Except SocialError OperationTable :=
  if h : row.id ∈ t.rows.map (·.id) ∨ (t.find? row.call).isSome then .error .integrity
  else .ok
    { table := t.table.insert row
      unique := by
        obtain ⟨-, hcall⟩ := not_or.mp h
        have hfree : ∀ r ∈ t.rows, r.call ≠ row.call := by
          rw [find?, Option.not_isSome_iff_eq_none, List.find?_eq_none] at hcall
          exact fun r hr => by simpa using hcall r hr
        intro r hr r' hr' he
        rcases Table.mem_insert.mp hr with h₁ | ⟨h₁, -⟩ <;>
          rcases Table.mem_insert.mp hr' with h₂ | ⟨h₂, -⟩
        · exact t.unique r h₁ r' h₂ he
        · exact absurd (h₂ ▸ he) (hfree r h₁)
        · exact absurd (h₁ ▸ he.symm) (hfree r' h₂)
        · rw [h₁, h₂] }

/-- `on_conflict_do_nothing(index_elements=["source_turn_id", "tool_call_id"])`. -/
def addNew (t : OperationTable) (row : SocialOperation) : Except SocialError OperationTable :=
  if (t.find? row.call).isSome then .ok t else t.add row

/-- An update that moves no row to another call. -/
def change (t : OperationTable) (p : SocialOperation → Bool) (f : SocialOperation → SocialOperation)
    (hf : ∀ r, (f r).id = r.id ∧ (f r).call = r.call := by intro r; exact ⟨rfl, rfl⟩) :
    OperationTable where
  table := t.table.update p f fun r => (hf r).1
  unique := by
    have hkey : ∀ r : SocialOperation, (if p r then f r else r).call = r.call := by
      intro r
      split
      · exact (hf r).2
      · rfl
    intro r hr r' hr' he
    obtain ⟨a, ha, rfl⟩ := List.mem_map.mp hr
    obtain ⟨b, hb, rfl⟩ := List.mem_map.mp hr'
    rw [hkey, hkey] at he
    rw [t.unique a ha b hb he]

/-- `rowcount`. -/
def count (t : OperationTable) (p : SocialOperation → Bool) : Nat :=
  (t.rows.filter p).length

end OperationTable

/-! Keys and hashes. -/

variable (sha256 : String → String)

def socialCallKey (operationId : String) : String :=
  if operationId.length ≤ 128 then operationId else "social-call:v1:sha256:" ++ sha256 operationId

def socialSourceKey (sourceTurnId : String) : String :=
  if sourceTurnId.length ≤ 128 then sourceTurnId
  else "social-source:v1:sha256:" ++ sha256 sourceTurnId

/-- The stable child-key prefix of one `send_message_sequence` parent. -/
def sequencePrefix (toolCallId : String) : String :=
  "seq:" ++ String.ofList ((sha256 toolCallId).toList.take 24) ++ ":"

def childKey (toolCallId : String) (index : Nat) : String :=
  sequencePrefix sha256 toolCallId ++ toString index

def payloadHash (action : SocialAction) (target : SocialTarget) (payload : Json)
    (conversationId : String) : String :=
  sha256 (Json.obj
    [("action", .str action.name),
      ("target", .obj [("kind", .str target.kind.name), ("id", .str target.id)]),
      ("payload", payload), ("source_conversation_id", .str conversationId)]).sortKeys.minify

/-- `_same_target`. -/
def sameTarget (persons : Table Identity.Person.id) (row : SocialOperation)
    (target : SocialTarget) : Bool :=
  if row.target.kind ≠ target.kind then false
  else if row.target.id = target.id then true
  else if target.kind ≠ .person then false
  else Identity.samePersonId persons row.target.id target.id

/-! `prepare`. -/

structure PrepareRequest where
  sourceTurnId : String
  toolCallId : String
  conversationId : String
  action : SocialAction
  target : SocialTarget
  payload : Json
  plannedParts : Option Int := none
  prepared : Option Json := none
  /-- A Work binds the receipt to its effect. -/
  workEffect : Bool := false
deriving DecidableEq, Repr

namespace PrepareRequest

variable (q : PrepareRequest)

def valid : Bool :=
  decide (q.sourceTurnId ≠ "" ∧ q.toolCallId ≠ "") &&
    match q.plannedParts with
    | none => true
    | some n => decide (q.action = .sendMessageSequence ∧ 1 ≤ n)

def call : String × String :=
  (socialSourceKey sha256 q.sourceTurnId, socialCallKey sha256 q.toolCallId)

def digest (target : SocialTarget) : String :=
  payloadHash sha256 q.action target q.payload q.conversationId

/-- The plan and the hash of the stored row are those of the request. -/
def matchesRow (row : SocialOperation) (target : SocialTarget) : Bool :=
  decide (row.plannedParts = q.plannedParts ∧ row.payloadHash = q.digest sha256 target)

/-- The reader: the physical target to prepare, or the stored row where nothing is to bind. -/
def read (db : SocialStore) : Except SocialError (SocialTarget ⊕ SocialReceipt) :=
  match db.operations.find? (q.call sha256) with
  | none => .ok (.inl q.target)
  | some existing => do
    require (sameTarget db.persons existing q.target = true) .idempotencyConflict
    require (q.matchesRow sha256 existing existing.target = true) .idempotencyConflict
    return if q.workEffect then .inl existing.target else .inr (receipt existing)

def row (target : SocialTarget) (id : String) (now : Int) : SocialOperation where
  id := id
  sourceTurnId := (q.call sha256).1
  toolCallId := (q.call sha256).2
  sourceConversationId := q.conversationId
  action := q.action
  payloadHash := q.digest sha256 target
  target := target
  createdAt := now
  updatedAt := now
  plannedParts := q.plannedParts
  preparedJson := q.prepared

def targetExists (db : SocialStore) (target : SocialTarget) : Bool :=
  match target.kind with
  | .person => (db.persons.get? target.id).isSome
  | .space => decide (target.id ∈ db.spaces)

/-- The writer: the store it leaves, and the receipt, or nothing where the stored row has another
physical target. `bound` is whether `bind_domain_receipt` finds the effect. -/
def write (db : SocialStore) (target : SocialTarget) (id : String) (bound : Bool) (now : Int) :
    Except SocialError (SocialStore × Option SocialReceipt) := do
  require (targetExists db target = true) .targetNotFound
  let operations ← db.operations.addNew (q.row sha256 target id now)
  let row ← expect (operations.find? (q.call sha256)) .integrity
  require (sameTarget db.persons row q.target = true) .idempotencyConflict
  if row.target ≠ target then return ({ db with operations := operations }, none)
  require (q.matchesRow sha256 row target = true) .idempotencyConflict
  require (q.workEffect = true → bound = true) .effectConflict
  return ({ db with operations := operations }, some (receipt row))

end PrepareRequest

/-! `prepare_sequence`. -/

structure SequenceRequest where
  sourceTurnId : String
  toolCallId : String
  conversationId : String
  target : SocialTarget
  payload : Json
  parts : List Json
  prepared : Option Json := none
  workEffect : Bool := false
deriving DecidableEq, Repr

namespace SequenceRequest

variable (q : SequenceRequest)

def call : String × String :=
  (socialSourceKey sha256 q.sourceTurnId, socialCallKey sha256 q.toolCallId)

def digest (target : SocialTarget) : String :=
  payloadHash sha256 .sendMessageSequence target q.payload q.conversationId

def partDigest (target : SocialTarget) (part : Json) : String :=
  payloadHash sha256 .sendMessage target part q.conversationId

/-- The reader: the physical target to prepare. -/
def read (db : SocialStore) : SocialTarget :=
  match db.operations.find? (q.call sha256) with
  | none => q.target
  | some row => row.target

def parent (target : SocialTarget) (id : String) (now : Int) : SocialOperation where
  id := id
  sourceTurnId := (q.call sha256).1
  toolCallId := (q.call sha256).2
  sourceConversationId := q.conversationId
  action := .sendMessageSequence
  payloadHash := q.digest sha256 target
  target := target
  createdAt := now
  updatedAt := now
  plannedParts := some q.parts.length
  preparedJson := q.prepared

def childCall (index : Nat) : String × String :=
  ((q.call sha256).1, childKey sha256 (q.call sha256).2 index)

def child (target : SocialTarget) (id : String) (now : Int) (part : Json) (index : Nat) :
    SocialOperation where
  id := id
  sourceTurnId := (q.childCall sha256 index).1
  toolCallId := (q.childCall sha256 index).2
  sourceConversationId := q.conversationId
  action := .sendMessage
  payloadHash := q.partDigest sha256 target part
  target := target
  createdAt := now
  updatedAt := now

/-- The parent and one child for each part, under ids drawn for them. -/
def rows (target : SocialTarget) (ids : Nat → String) (now : Int) : List SocialOperation :=
  q.parent sha256 target (ids 0) now ::
    q.parts.zipIdx.map fun part => q.child sha256 target (ids (part.2 + 1)) now part.1 part.2

/-- `tool_call_id.startswith(prefix)`: a `LIKE`, blind to the case of ASCII letters. -/
def children (db : SocialStore) : List SocialOperation :=
  db.operations.rows.filter fun row =>
    decide (row.sourceTurnId = (q.call sha256).1 ∧ row.action = .sendMessage) &&
      (sequencePrefix sha256 (q.call sha256).2).toLower.toList.isPrefixOf
        row.toolCallId.toLower.toList

/-- The stored parent is the request's, whose hash covers the target it was prepared for. -/
def matchesRow (row : SocialOperation) (target : SocialTarget) : Bool :=
  decide (row.sourceConversationId = q.conversationId ∧ row.target = target ∧
    row.action = .sendMessageSequence ∧ row.payloadHash = q.digest sha256 target ∧
    row.plannedParts = some (q.parts.length : Int))

/-- Every part has its stored child. -/
def matchesChildren (children : List SocialOperation) (target : SocialTarget) : Bool :=
  q.parts.zipIdx.all fun part =>
    (children.find? fun row => decide (row.toolCallId = (q.childCall sha256 part.2).2)).any
      fun row => decide (row.payloadHash = q.partDigest sha256 target part.1)

/-- The writer: the store it leaves, and the receipt with whether to dispatch, or nothing where
the stored row has another physical target. -/
def write (db : SocialStore) (target : SocialTarget) (ids : Nat → String) (bound : Bool)
    (now : Int) : Except SocialError (SocialStore × Option (SocialReceipt × Bool)) :=
  match db.operations.find? (q.call sha256) with
  | none => do
    let operations ← (q.rows sha256 target ids now).foldlM OperationTable.add db.operations
    require (q.workEffect = true → bound = true) .effectConflict
    return ({ db with operations := operations },
      some (receipt (q.parent sha256 target (ids 0) now), true))
  | some row => do
    require (sameTarget db.persons row q.target = true) .idempotencyConflict
    if row.target ≠ target then return (db, none)
    require (q.matchesRow sha256 row target = true) .idempotencyConflict
    let children := q.children sha256 db
    require (q.matchesChildren sha256 children target = true) .idempotencyConflict
    let dispatch := decide (row.status = .prepared) &&
      children.all fun child => decide (child.status = .prepared)
    require (q.workEffect = true → bound = true) .effectConflict
    return (db, some (receipt row, dispatch))

end SequenceRequest

/-! `claim`, `stop_sequence` and `finish`. -/

/-- `json_extract(prepared_json, '$.route.local_ledger')`. -/
def SocialOperation.localLedger (row : SocialOperation) : Sql.Value :=
  match row.preparedJson with
  | some prepared => Sql.jsonExtract prepared ["route", "local_ledger"]
  | none => .null

/-- The prepared route is the local ledger. -/
def SocialOperation.isLocal (row : SocialOperation) : Bool :=
  (row.localLedger.eq (.int 1)).holds

structure ClaimRequest where
  operationId : String
  presenceId : String
  expectedPayloadHash : Option String := none
  /-- The parent and the index of a part of a sequence. -/
  parentPart : Option (String × Int) := none
  resumeLocal : Bool := false
deriving DecidableEq, Repr

/-- A part beyond the plan of its parent is never claimed. -/
def ClaimRequest.inPlan (c : ClaimRequest) (t : OperationTable) : Bool :=
  match c.parentPart with
  | none => true
  | some (parentId, index) =>
    (t.table.get? parentId).any fun parent => decide (index < parent.plannedParts.getD 0)

def ClaimRequest.selects (c : ClaimRequest) (row : SocialOperation) : Bool :=
  decide (row.id = c.operationId) &&
  (if c.resumeLocal then
    decide (row.status = .executing ∧ row.presenceId = some c.presenceId ∧ row.eventId = none ∧
      row.originalEventId = none ∧ row.platformReference = none) && row.isLocal
  else decide (row.status = .prepared)) &&
  match c.expectedPayloadHash with
  | some hash => decide (row.payloadHash = hash)
  | none => true

def SocialOperation.claimed (row : SocialOperation) (presenceId : String) (now : Int) :
    SocialOperation :=
  { row with status := .executing, presenceId := some presenceId, updatedAt := now }

/-- Commits the send boundary: the store it leaves, and whether the send is the caller's. -/
def claim (t : OperationTable) (c : ClaimRequest) (now : Int) : OperationTable × Bool :=
  if c.inPlan t then
    (t.change c.selects fun row => row.claimed c.presenceId now, decide (t.count c.selects = 1))
  else (t, false)

def SocialOperation.failed (row : SocialOperation) (errorCategory : String) (now : Int) :
    SocialOperation :=
  { row with status := .failed, errorCategory := some errorCategory, updatedAt := now }

def stopSequence (t : OperationTable) (operationId errorCategory : String) (now : Int) :
    OperationTable :=
  t.change
    (fun row => decide (row.id = operationId ∧ row.action = .sendMessageSequence ∧
      row.status = .prepared))
    fun row => row.failed errorCategory now

structure FinishRequest where
  operationId : String
  status : OperationStatus
  platformReference : Option String := none
  eventId : Option Int := none
  errorCategory : Option String := none
deriving DecidableEq, Repr

def isFinal (status : OperationStatus) : Bool :=
  decide (status = .succeeded ∨ status = .failed ∨ status = .uncertain)

/-- An error category: up to 64 ASCII letters, digits and underscores. -/
def categoryValid (category : String) : Bool :=
  decide (category ≠ "" ∧ category.length ≤ 64) &&
    category.toList.all fun c => c.isAlphanum || c == '_'

def SocialOperation.settled (row : SocialOperation) (f : FinishRequest)
    (conversation : Option String) (now : Int) : SocialOperation :=
  { row with
    status := f.status
    platformReference := f.platformReference
    eventId := f.eventId
    originalEventId := f.eventId
    originalConversationId := conversation
    errorCategory := f.errorCategory
    updatedAt := now }

/-- `finish`; an exception leaves the store as it was. -/
def finish (db : SocialStore) (f : FinishRequest) (now : Int) :
    Except SocialError (SocialStore × SocialReceipt) := do
  require (isFinal f.status = true) .invalidTransition
  require (∀ category ∈ f.errorCategory, categoryValid category = true) .invalidErrorCategory
  require (∀ event ∈ f.eventId, 0 < event ∧ f.status = .succeeded) .invalidEventReference
  let conversation := f.eventId.bind fun event =>
    (db.events.find? fun e => decide (e.id = event)).bind (·.conversationId)
  let operations := db.operations.change
    (fun row => decide (row.id = f.operationId ∧ row.status = .executing))
    fun row => row.settled f conversation now
  let before ← expect (db.operations.table.get? f.operationId) .invalidTransition
  require (before.status = .executing) .invalidTransition
  return ({ db with operations := operations },
    { receipt (before.settled f conversation now) with prepared := none })

/-! `recover_interrupted`. -/

/-- A sequence that stopped halfway, and the keys of its parts. -/
structure Interrupted where
  id : String
  sourceTurnId : String
  keys : List String
deriving DecidableEq, Repr

/-- A live emoji waits for the operation. -/
def SocialStore.awaited (db : SocialStore) (row : SocialOperation) : Bool :=
  db.intents.any fun intent =>
    !intent.closed &&
      ((Sql.Value.text row.id).eq (Sql.jsonExtract intent.sourceJson ["after_operation_id"])).holds

def SocialOperation.keys (row : SocialOperation) : List String :=
  (List.range (row.plannedParts.getD 0).toNat).map (childKey sha256 row.toolCallId)

/-- The statuses of the parts of a sequence. -/
def OperationTable.parts (t : OperationTable) (sourceTurnId : String) (keys : List String) :
    List OperationStatus :=
  (t.rows.filter fun row =>
    decide (row.sourceTurnId = sourceTurnId ∧ row.toolCallId ∈ keys)).map (·.status)

/-- Some parts are prepared and some no more. -/
def OperationTable.halfway (t : OperationTable) (sourceTurnId : String) (keys : List String) :
    Bool :=
  let statuses := t.parts sourceTurnId keys
  decide (.prepared ∈ statuses) && statuses.any fun status => decide (status ≠ .prepared)

/-- The reader. -/
def readInterrupted (db : SocialStore) : List Interrupted :=
  (db.operations.rows.filter fun row =>
    db.awaited row && decide (row.action = .sendMessageSequence ∧ row.status = .prepared) &&
      db.operations.halfway row.sourceTurnId (row.keys sha256)).map fun row =>
    ⟨row.id, row.sourceTurnId, row.keys sha256⟩

/-- Sends that a process left behind, but those to the local ledger. -/
def SocialOperation.abandoned (row : SocialOperation) : Bool :=
  decide (row.status = .executing) &&
    (row.localLedger.isNull || ((row.localLedger.eq (.int 1)).not).holds)

def SocialOperation.uncertain (row : SocialOperation) (now : Int) : SocialOperation :=
  { row with status := .uncertain, errorCategory := some "process_interrupted", updatedAt := now }

/-- The parent was interrupted where it still is halfway. -/
def Interrupted.selects (i : Interrupted) (t : OperationTable) (row : SocialOperation) : Bool :=
  decide (row.id = i.id ∧ row.action = .sendMessageSequence ∧ row.status = .prepared ∧
    row.plannedParts = some (i.keys.length : Int)) && t.halfway i.sourceTurnId i.keys

def stopInterrupted (now : Int) (recovered : OperationTable × Nat) (i : Interrupted) :
    OperationTable × Nat :=
  (recovered.1.change (i.selects recovered.1) fun row => row.failed "process_interrupted" now,
    recovered.2 + recovered.1.count (i.selects recovered.1))

/-- The writer: the table it leaves, and how many rows it recovered. -/
def writeRecovery (t : OperationTable) (interrupted : List Interrupted) (now : Int) :
    OperationTable × Nat :=
  interrupted.foldl (stopInterrupted now)
    (t.change SocialOperation.abandoned fun row => row.uncertain now,
      t.count SocialOperation.abandoned)

end Yuki.Social

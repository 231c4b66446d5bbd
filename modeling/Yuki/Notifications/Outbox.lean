import Mathlib.Data.List.Sort
import Yuki.Lib.Json
import Yuki.Lib.Table

/-! The outbox of plugin notifications: parts of an external event, their
layout, and the attempts of the delivery workers. -/

namespace Yuki.Outbox

inductive Status
  | pending | processing | sent | failed | uncertain | cancelled
deriving DecidableEq

inductive PartType
  | text | media | agentReply
deriving DecidableEq

inductive TargetType
  | group | private_
deriving DecidableEq

/-- `plugin_notification_outbox`; instants count microseconds, and `prepared`
is the value of `prepared_json`. -/
structure OutboxRow where
  id : Nat
  sourcePersonId : Option String
  prepared : Option Json
  notificationId : String
  partKey : String
  sourceEventId : Nat
  eventId : Option Nat
  pluginId : String
  targetType : TargetType
  targetId : String
  botUserId : String
  partType : PartType
  text : String
  mediaHandleId : Option String
  status : Status
  attempts : Nat
  maxAttempts : Nat
  nextAttemptAt : Int
  leaseUntil : Option Int
  platformMessageId : Option String
  lastErrorCategory : Option String
  createdAt : Int
  updatedAt : Int
  sentAt : Option Int
  canonicalTargetPersonId : Option String
  canonicalTargetSpaceId : Option String
  canonicalPresenceId : Option String
  canonicalConversationId : Option String
deriving DecidableEq

/-- What identifies a published event. -/
structure EventKey where
  pluginId : String
  eventKey : String
  scopeType : TargetType
  conversationId : String
deriving DecidableEq

structure ExternalEvent where
  id : Nat
  key : EventKey
deriving DecidableEq

structure Store where
  outbox : Table OutboxRow.id := .empty
  nextId : Nat := 1
  events : List ExternalEvent := []
  nextEventId : Nat := 1

/-- A request over the grant it was prepared with. -/
structure Publication where
  key : EventKey
  notificationId : String
  targetType : TargetType
  targetId : String
  botUserId : String
  personId : Option String
  spaceId : Option String
  presenceId : Option String
  sourcePersonId : Option String
  media : List (Nat × String × String)
  text : String
deriving DecidableEq

def mediaPartKey (index : Nat) (sha256 : String) : String :=
  "media:" ++ toString index ++ ":" ++ sha256

/-- `_ensure_outbox_part`, still without an id. -/
def ensureOutboxPart (p : Publication) (sourceEventId : Nat) (partKey : String) (partType : PartType)
    (text : String) (mediaHandleId : Option String) (now : Int) : OutboxRow where
  id := 0
  sourcePersonId := p.sourcePersonId
  prepared := none
  notificationId := p.notificationId
  partKey := partKey
  sourceEventId := sourceEventId
  eventId := none
  pluginId := p.key.pluginId
  targetType := p.targetType
  targetId := p.targetId
  botUserId := p.botUserId
  partType := partType
  text := text
  mediaHandleId := mediaHandleId
  status := .pending
  attempts := 0
  maxAttempts := 5
  nextAttemptAt := now
  leaseUntil := none
  platformMessageId := none
  lastErrorCategory := none
  createdAt := now
  updatedAt := now
  sentAt := none
  canonicalTargetPersonId := p.personId
  canonicalTargetSpaceId := p.spaceId
  canonicalPresenceId := p.presenceId
  canonicalConversationId := some p.key.conversationId

def Publication.parts (p : Publication) (sourceEventId : Nat) (now : Int) : List OutboxRow :=
  p.media.map (fun m => ensureOutboxPart p sourceEventId (mediaPartKey m.1 m.2.2) .media ""
    (some m.2.1) now) ++
  (if p.text = "" then [] else [ensureOutboxPart p sourceEventId "text" .text p.text none now])

def Store.addRow (s : Store) (row : OutboxRow) : Store :=
  { s with outbox := s.outbox.insert { row with id := s.nextId }, nextId := s.nextId + 1 }

/-- `uq_plugin_notification_outbox_part` over the rows and those to be added. -/
def Store.partsFree (s : Store) (rows : List OutboxRow) : Bool :=
  (rows.map fun row => (row.notificationId, row.partKey)).Nodup ∧
    ∀ row ∈ rows, ∀ old ∈ s.outbox.rows,
      (old.notificationId, old.partKey) ≠ (row.notificationId, row.partKey)

/-- `_load_existing_external_event`. -/
def Store.existing (s : Store) (key : EventKey) : Option ExternalEvent :=
  s.events.find? fun event => event.key = key

/-- The writer of `_publish_once`. `permitted` stands for the checks of plugin, grant,
scope and media; `created` for the answer of the ledger. -/
def publish (s : Store) (p : Publication) (now : Int) (permitted created : Bool) : Store :=
  if !permitted || (s.existing p.key).isSome || !created then s
  else
    let rows := p.parts s.nextEventId now
    if s.partsFree rows then
      rows.foldl Store.addRow { s with
        events := s.events ++ [{ id := s.nextEventId, key := p.key }]
        nextEventId := s.nextEventId + 1 }
    else s

/-! Rows. -/

def OutboxRow.message? (row : OutboxRow) : Option Json :=
  row.prepared.bind fun prepared => prepared.get? "message"

/-- `json_extract(prepared_json, '$.message') IS NOT NULL`. -/
def OutboxRow.hasMessage (row : OutboxRow) : Bool :=
  row.message?.any fun message => message ≠ .null

/-- `_prepared_local_outbox`. -/
def preparedLocalOutbox (row : OutboxRow) : Bool :=
  let route := (row.prepared.getD (.obj [])).getD "route" (.obj [])
  route.get "local_ledger" = .bool true && (route.get "provider_id").truthy

/-- `_owns_processing_attempt`. -/
def ownsProcessingAttempt (row : OutboxRow) (attempt : Nat) : Bool :=
  row.status = .processing ∧ row.attempts = attempt

def Store.updateRow (s : Store) (id : Nat) (p : OutboxRow → Bool) (f : OutboxRow → OutboxRow)
    (hf : ∀ row, (f row).id = row.id := by intro row; rfl) : Store :=
  { s with outbox := s.outbox.update (fun row => row.id = id && p row) f hf }

def failUnclaimedOutbox (s : Store) (id : Nat) (category : String) (now : Int) : Store :=
  s.updateRow id (fun row => row.status = .pending) fun row =>
    { row with status := .failed, lastErrorCategory := some category, updatedAt := now }

/-! Layout. -/

/-- The columns of `OutboxRecord` that a layout is checked against. -/
structure Item where
  id : Nat
  text : String
  mediaHandleId : Option String
deriving DecidableEq

def partText (part : Json) : String :=
  match (part.get "message").get "text" with
  | .str text => text
  | _ => ""

def layoutRow (original row : OutboxRow) (part : Json) : OutboxRow :=
  let bare := !((part.get "message").get "media").truthy
  { row with
    prepared := some part
    text := partText part
    partType := if bare then .text else original.partType
    mediaHandleId := if bare then none else original.mediaHandleId }

def childRows (row : OutboxRow) (parts : List Json) : List OutboxRow :=
  (parts.zipIdx 1).map fun part =>
    layoutRow row { row with partKey := row.partKey ++ ":part:" ++ toString part.2 } part.1

/-- `prepare_outbox`; `readable` stands for the checks of the source and the target. -/
def prepareOutbox (s : Store) (item : Item) (parts : List Json) (readable : Bool) : Store :=
  match s.outbox.get? item.id with
  | none => s
  | some row =>
    if row.status ≠ .pending ∨ row.message?.isSome then s
    else if !readable || !(row.text = item.text ∧ row.mediaHandleId = item.mediaHandleId) then s
    else
      match parts with
      | [] => s
      | first :: rest =>
        if s.partsFree (childRows row rest) then
          (childRows row rest).foldl Store.addRow
            (s.updateRow item.id (fun _ => true) fun row' => layoutRow row row' first)
        else s

/-! Claims. -/

def outboxEligible (now : Int) (row : OutboxRow) : Bool :=
  row.status = .pending && decide (row.nextAttemptAt ≤ now) && row.hasMessage ||
    row.status = .processing && row.leaseUntil.any fun lease => lease < now

def byAge (a b : OutboxRow) : Prop :=
  a.createdAt < b.createdAt ∨ a.createdAt = b.createdAt ∧ a.id ≤ b.id

instance : DecidableRel byAge := fun a b => by
  unfold byAge
  infer_instance

/-- The reader of `claim_outbox`. -/
def discoverOutbox (s : Store) (now : Int) : List Nat :=
  (((s.outbox.rows.filter (outboxEligible now)).insertionSort byAge).take 128).map (·.id)

def leaseExpired (ids : List Nat) (now : Int) (row : OutboxRow) : Bool :=
  decide (row.id ∈ ids) && row.status = .processing && row.leaseUntil.any fun lease => lease < now

/-- What becomes of a row whose lease ran out. -/
def expireRow (now : Int) (row : OutboxRow) : OutboxRow :=
  let status : Status := if row.eventId.isSome then .sent
    else if preparedLocalOutbox row then .pending else .uncertain
  { row with
    status := status
    lastErrorCategory := if status = .sent then none else some "processing_lease_expired"
    leaseUntil := none
    updatedAt := now }

def expireOutbox (s : Store) (ids : List Nat) (now : Int) : Store :=
  { s with outbox := s.outbox.update (leaseExpired ids now) (expireRow now) }

def claimCandidate (s : Store) (ids : List Nat) (now : Int) : Option OutboxRow :=
  ((s.outbox.rows.filter fun row =>
    decide (row.id ∈ ids) && decide (row.nextAttemptAt ≤ now) && row.status = .pending).insertionSort
      byAge).head?

def refusedRow (category : String) (now : Int) (row : OutboxRow) : OutboxRow :=
  { row with
    status := .failed, attempts := row.attempts + 1, lastErrorCategory := some category
    leaseUntil := none, updatedAt := now }

def takenRow (now : Int) (lease : Nat) (row : OutboxRow) : OutboxRow :=
  { row with
    status := .processing, attempts := row.attempts + 1, leaseUntil := some (now + lease)
    updatedAt := now }

/-- The writer of `claim_outbox`, with the row it hands out; `refused` is the category
of a source or target that may not be read. -/
def claimOutbox (s : Store) (ids : List Nat) (now : Int) (lease : Nat) (refused : Option String) :
    Store × Option OutboxRow :=
  let s := expireOutbox s ids now
  match claimCandidate s ids now with
  | none => (s, none)
  | some row =>
    match refused with
    | some category => (s.updateRow row.id (fun _ => true) (refusedRow category now), none)
    | none => (s.updateRow row.id (fun _ => true) (takenRow now lease), some (takenRow now lease row))

/-! Under a claim. -/

def outboxLease : Int := 300 * 1000000

def requireOutboxReady (s : Store) (id attempt : Nat) (now : Int) (readable : Bool) : Store :=
  if readable then
    s.updateRow id (fun row => ownsProcessingAttempt row attempt) fun row =>
      { row with leaseUntil := some (now + outboxLease), updatedAt := now }
  else s

/-- `require_agent_reply_ready`; `category` is why the reply may not be sent any more. -/
def requireAgentReplyReady (s : Store) (id attempt : Nat) (now : Int) (category : Option String) :
    Store :=
  s.updateRow id (fun row => ownsProcessingAttempt row attempt) fun row =>
    { row with
      status := if category.isSome then .cancelled else row.status
      lastErrorCategory := if category.isSome then category else row.lastErrorCategory
      leaseUntil := if category.isSome then none else some (now + outboxLease)
      updatedAt := now }

def settleGuard (id attempt : Nat) (now : Int) (row : OutboxRow) : Bool :=
  row.id = id && row.status = .processing && row.attempts = attempt &&
    row.leaseUntil.any fun lease => now < lease

def settledRow (now : Int) (eventId : Nat) (row : OutboxRow) : OutboxRow :=
  { row with
    status := .sent, leaseUntil := none, updatedAt := now, sentAt := some now
    platformMessageId := none, lastErrorCategory := none, eventId := some eventId }

/-- `settle_local_outbox` with the event recorded in its transaction; `committed` stands for
the checks after the update and for the rest of the transaction. -/
def settleLocalOutbox (s : Store) (id attempt : Nat) (now : Int) (committed : Bool) (eventId : Nat) :
    Store × Bool :=
  if committed && s.outbox.rows.any (settleGuard id attempt now) then
    ({ s with outbox := s.outbox.update (settleGuard id attempt now) (settledRow now eventId) }, true)
  else (s, false)

def recoverLocalOutbox (s : Store) (id attempt : Nat) (now : Int) : Store :=
  s.updateRow id
    (fun row => !(row.status = .sent) && row.eventId.isNone && ownsProcessingAttempt row attempt &&
      preparedLocalOutbox row)
    fun row => { row with
      status := .pending, leaseUntil := none
      lastErrorCategory := some "local_settlement_retry", updatedAt := now }

/-- The statuses a delivery ends with. -/
inductive Ending
  | sent (eventId : Option Nat)
  | failed
  | uncertain
  | cancelled
deriving DecidableEq

def Ending.status : Ending → Status
  | sent _ => .sent
  | failed => .failed
  | uncertain => .uncertain
  | cancelled => .cancelled

def Ending.eventId : Ending → Option Nat
  | sent eventId => eventId
  | _ => none

def finishGuard (attempt : Nat) (ending : Ending) (platformMessageId : Option String)
    (row : OutboxRow) : Bool :=
  ownsProcessingAttempt row attempt ||
    row.attempts = attempt && row.status = .uncertain &&
      (ending.status = .sent ∨ ending.status = .uncertain) &&
      (row.platformMessageId = none ∨ row.platformMessageId = platformMessageId)

def finishOutbox (s : Store) (id attempt : Nat) (ending : Ending) (platformMessageId : Option String)
    (errorCategory : Option String) (now : Int) : Store :=
  s.updateRow id (finishGuard attempt ending platformMessageId) fun row =>
    { row with
      status := ending.status
      platformMessageId := platformMessageId
      eventId := ending.eventId.or row.eventId
      lastErrorCategory := errorCategory
      leaseUntil := none
      updatedAt := now
      sentAt := if ending.status = .sent then some now else none }

/-- The errors that prove that nothing was sent. -/
def safeErrors : List String :=
  ["bot_unavailable", "gateway_disconnected", "effect_gate_timeout"]

/-- `delays[min(attempts - 1, 4)]` in seconds; an index of -1 is the last entry. -/
def retryDelay : Nat → Int
  | 0 => 1800
  | 1 => 10
  | 2 => 30
  | 3 => 120
  | 4 => 600
  | _ => 1800

def retryGuard (attempt : Option Nat) (errorCategory : String) (row : OutboxRow) : Bool :=
  attempt.all (ownsProcessingAttempt row) && row.platformMessageId.isNone &&
    match attempt with
    | none => errorCategory = "manual_retry" && row.status = .failed &&
        row.lastErrorCategory.any (fun e => decide (e ∈ safeErrors)) &&
        decide (row.attempts < row.maxAttempts)
    | some _ => decide (errorCategory ∈ safeErrors)

def retryOutbox (s : Store) (id : Nat) (attempt : Option Nat) (errorCategory : String)
    (readable : Bool) (now : Int) : Store :=
  if readable then
    s.updateRow id (retryGuard attempt errorCategory) fun row =>
      let spent := row.maxAttempts ≤ row.attempts
      { row with
        status := if spent then .failed else .pending
        nextAttemptAt := if spent then row.nextAttemptAt
          else now + retryDelay row.attempts * 1000000
        lastErrorCategory := some errorCategory
        leaseUntil := none
        updatedAt := now }
  else s

/-- The grant whose target is revoked. -/
structure RevokedGrant where
  pluginId : String
  personId : Option String
  spaceId : Option String
  conversationId : Option String
deriving DecidableEq

/-- The outbox half of `revoke_target`. -/
def RevokedGrant.matches (g : RevokedGrant) (row : OutboxRow) : Bool :=
  row.pluginId = g.pluginId &&
    (if g.personId.any (· ≠ "") then row.canonicalTargetPersonId = g.personId
      else row.canonicalTargetSpaceId = g.spaceId) &&
    row.canonicalConversationId = g.conversationId &&
    (row.status = .pending || row.status = .processing)

def revokeTarget (s : Store) (g : RevokedGrant) (now : Int) : Store :=
  { s with outbox := s.outbox.update g.matches fun row =>
      { row with status := .cancelled, leaseUntil := none, updatedAt := now } }

/-! Any number of delivery workers. -/

/-- The store, the ids readers discovered, and the attempts handed out and the rows
settled locally, newest first. -/
structure World where
  store : Store := {}
  discovered : List (List Nat) := []
  handed : List (Nat × Nat) := []
  settled : List Nat := []

inductive Event
  | publish (p : Publication) (now : Int) (permitted created : Bool)
  | prepareOutbox (item : Item) (parts : List Json) (readable : Bool)
  | failUnclaimedOutbox (id : Nat) (category : String) (now : Int)
  | discoverOutbox (now : Int)
  | claimOutbox (ids : List Nat) (now : Int) (lease : Nat) (refused : Option String)
  | requireOutboxReady (id attempt : Nat) (now : Int) (readable : Bool)
  | requireAgentReplyReady (id attempt : Nat) (now : Int) (category : Option String)
  | settleLocalOutbox (id attempt : Nat) (now : Int) (committed : Bool) (eventId : Nat)
  | recoverLocalOutbox (id attempt : Nat) (now : Int)
  | finishOutbox (id attempt : Nat) (ending : Ending) (platformMessageId errorCategory : Option String)
      (now : Int)
  | retryOutbox (id : Nat) (attempt : Option Nat) (errorCategory : String) (readable : Bool) (now : Int)
  | revokeTarget (g : RevokedGrant) (now : Int)

def World.step (w : World) : Event → Option World
  | .publish p now permitted created =>
    some { w with store := publish w.store p now permitted created }
  | .prepareOutbox item parts readable =>
    some { w with store := prepareOutbox w.store item parts readable }
  | .failUnclaimedOutbox id category now =>
    some { w with store := failUnclaimedOutbox w.store id category now }
  | .discoverOutbox now => some { w with discovered := discoverOutbox w.store now :: w.discovered }
  | .claimOutbox ids now lease refused =>
    if ids ∈ w.discovered then
      let claimed := claimOutbox w.store ids now lease refused
      some { w with
        store := claimed.1
        handed := (claimed.2.map fun row => (row.id, row.attempts)).toList ++ w.handed }
    else none
  | .requireOutboxReady id attempt now readable =>
    some { w with store := requireOutboxReady w.store id attempt now readable }
  | .requireAgentReplyReady id attempt now category =>
    some { w with store := requireAgentReplyReady w.store id attempt now category }
  | .settleLocalOutbox id attempt now committed eventId =>
    let settled := settleLocalOutbox w.store id attempt now committed eventId
    some { w with store := settled.1, settled := (if settled.2 then [id] else []) ++ w.settled }
  | .recoverLocalOutbox id attempt now =>
    some { w with store := recoverLocalOutbox w.store id attempt now }
  | .finishOutbox id attempt ending platformMessageId errorCategory now =>
    some { w with store := finishOutbox w.store id attempt ending platformMessageId errorCategory now }
  | .retryOutbox id attempt errorCategory readable now =>
    some { w with store := retryOutbox w.store id attempt errorCategory readable now }
  | .revokeTarget g now => some { w with store := revokeTarget w.store g now }

end Yuki.Outbox

import Yuki.Runtime.Subagents

/-! Durable one-shot waits: registration, cancellation, delivery, and the events
and callbacks that meet their conditions. -/

namespace Yuki

/-- `person_root_id`: who a person was merged into, or the person itself. -/
def personRootId (db : Db) : Sql.Value → Sql.Value
  | .text id =>
    match db.persons.get? id with
    | some person => .text (person.mergedIntoPersonId.getD person.id)
    | none => .null
  | _ => .null

/-- `same_person_condition`. -/
def samePerson (db : Db) (left right : Sql.Value) : Bool :=
  ((personRootId db left).eq (personRootId db right)).holds

/-! Conditions. -/

namespace Condition

def open_ (c : Condition) : Bool :=
  c.matched.isNone

/-- `after_event_id` of a condition on events. -/
def withWatermark (watermark : Int) (c : Condition) : Condition :=
  match c.kind with
  | .conversation _ => { c with kind := .conversation watermark }
  | .pluginEvent plugin type source _ => { c with kind := .pluginEvent plugin type source watermark }
  | _ => c

end Condition

/-- `matched.pop("text", None)`. -/
def Match.dropText : Match → Match
  | .event eventId kind at_ _ => .event eventId kind at_ none
  | m => m

def Condition.dropText (c : Condition) : Condition :=
  { c with matched := c.matched.map Match.dropText }

/-- Whether the conditions of a wait are met. -/
def WaitMode.met (mode : WaitMode) (conditions : List Condition) : Bool :=
  match mode with
  | .any => conditions.any fun c => c.matched.isSome
  | .all => conditions.all fun c => c.matched.isSome

/-- The number a JSON value holds. -/
def Json.number? : Json → Option ℚ
  | .int n => some n
  | .real m e => some (m * (10 : ℚ) ^ e)
  | _ => none

/-- `set(item) - names` is empty. -/
def Json.onlyHas (j : Json) (names : List String) : Bool :=
  j.fields.all fun f => names.contains f.1

/-- A filter text between one and 128 characters. -/
def filterText : Json → Option String
  | .str s => if 1 ≤ s.length ∧ s.length ≤ 128 then some s else none
  | _ => none

section Timestamps

/-! `timestamp` reads an ISO date; `none` is no date, `some none` one without a zone. -/

variable (timestamp : String → Option (Option Time))

/-- `_timestamp`. -/
def readTimestamp (raw : String) : Except Err Time :=
  match timestamp raw with
  | none => .error (.valueError "invalid_wait_time")
  | some none => .error (.valueError "wait_time_requires_timezone")
  | some (some t) => .ok t

def timeCondition (now : Time) (item : Json) : Except Err Condition :=
  match item.get? "at", item.get? "after_seconds" with
  | some (.str raw), none => (readTimestamp timestamp raw).map fun due => ⟨.timeDue due, none⟩
  | some _, none => .error (.valueError "invalid_wait_time")
  | none, some seconds =>
    match seconds.number? with
    | some s => .ok ⟨.timeDue (now + s), none⟩
    | none => .error (.valueError "invalid_wait_delay")
  | _, _ => .error (.valueError "wait_time_requires_at_or_after")

def pluginCondition (item : Json) : Except Err Condition :=
  match filterText (item.get "plugin_id"), filterText (item.get "event_type"),
      item.get "external_source" with
  | some plugin, some type, .null =>
    if item.onlyHas ["kind", "plugin_id", "event_type", "external_source"] then
      .ok ⟨.pluginEvent plugin type none 0, none⟩
    else .error (.valueError "invalid_wait_plugin_filter")
  | some plugin, some type, .str source =>
    if source.length ≤ 128 ∧ item.onlyHas ["kind", "plugin_id", "event_type", "external_source"] then
      .ok ⟨.pluginEvent plugin type (some source) 0, none⟩
    else .error (.valueError "invalid_wait_plugin_filter")
  | _, _, _ => .error (.valueError "invalid_wait_plugin_filter")

/-- One item of `normalize_conditions`; no event is watched yet. -/
def normalizeCondition (now : Time) (item : Json) : Except Err Condition :=
  if item.isObj = false then .error (.valueError "invalid_wait_condition")
  else match item.get "kind" with
    | .str "time_due" => timeCondition timestamp now item
    | .str "conversation" =>
      if item.onlyHas ["kind"] then .ok ⟨.conversation 0, none⟩
      else .error (.valueError "invalid_wait_condition")
    | .str "plugin_event" => pluginCondition item
    | .str "owned_run" =>
      match item.get "run_id" with
      | .str run =>
        if run ≠ "" ∧ item.onlyHas ["kind", "run_id"] then .ok ⟨.ownedRun run, none⟩
        else .error (.valueError "invalid_wait_run")
      | _ => .error (.valueError "invalid_wait_run")
    | _ => .error (.valueError "unknown_wait_condition")

/-- `normalize_conditions`. -/
def normalizeConditions (now : Time) : Json → Except Err (List Condition)
  | .arr (item :: items) => (item :: items).mapM (normalizeCondition timestamp now)
  | _ => .error (.valueError "wait_conditions_required")

end Timestamps

/-! Bindings. -/

/-- The columns of a wait its delivery names. -/
structure Binding where
  id : String
  workId : String
  conversationId : String
  generation : Int
  principalKind : String
  principalId : String
deriving DecidableEq

/-- The joined columns of the Work and its conversation; all NULL without such rows. -/
structure Original where
  generation : Option Int
  state : Option WorkState
  sourceKind : Sql.Value
  sourcePersonId : Sql.Value
  currentGeneration : Option Int
deriving DecidableEq

namespace Original

/-- Whether the wait may still be served in the conversation it was made in. -/
def alive (o : Original) (generation : Int) : Bool :=
  o.currentGeneration == some generation && o.generation == some generation &&
    !o.state.any WorkState.terminal

/-- The recorded principal of the Work. -/
def principal (o : Original) : Sql.Value :=
  if o.sourceKind = .text "self" then .text "self" else o.sourcePersonId

/-- Whether the stored ids are those of the Work, compared as they stand. -/
def recorded (o : Original) (b : Binding) : Bool :=
  o.sourceKind == .text b.principalKind && o.principal == .text b.principalId

end Original

/-- A row of `_due_query`. -/
structure DueRow where
  binding : Binding
  original : Original
  mode : WaitMode
  conditions : List Condition
  deadline : Option Time
  created : Time
deriving DecidableEq

/-- `coalesce(json_extract(source, '$.principal_kind'), 'person')`. -/
def sourceKind (source : Json) : Sql.Value :=
  (Sql.jsonExtract source ["principal_kind"]).coalesce (.text "person")

def sourcePersonId (source : Json) : Sql.Value :=
  Sql.jsonExtract source ["actor_person_id"]

def WaitRow.binding (w : WaitRow) : Binding :=
  ⟨w.id, w.workId, w.conversationId, w.generation, w.principalKind, w.principalId⟩

namespace Db

/-- The Work of a binding as it stands. -/
def original (db : Db) (b : Binding) : Original :=
  let row := db.works.get? b.workId
  { generation := row.map WorkRow.generation
    state := row.map WorkRow.state
    sourceKind := (row.map fun w => sourceKind w.sourceJson).getD (.text "person")
    sourcePersonId := (row.map fun w => sourcePersonId w.sourceJson).getD .null
    currentGeneration := db.conversationGeneration b.conversationId }

def dueRow (db : Db) (w : WaitRow) : DueRow :=
  ⟨w.binding, db.original w.binding, w.mode, w.conditions, w.deadline, w.created⟩

/-- `ORDER BY created, id`. -/
def dueBefore (a b : DueRow) : Bool :=
  decide (a.created < b.created) ||
    (decide (a.created = b.created) && decide (a.binding.id ≤ b.binding.id))

/-- `_due_query` under a further condition, in order. -/
def dueRows (db : Db) (p : WaitRow → Bool) : List DueRow :=
  ((db.waits.rows.filter fun w => w.status == .active && p w).map db.dueRow).mergeSort dueBefore

def isActive (db : Db) (id : String) : Bool :=
  db.waits.rows.any fun w => w.id == id && w.status == .active

/-- `UPDATE … WHERE id = … AND status = 'active'` on the waits. -/
def updateActive (db : Db) (id : String) (f : WaitRow → WaitRow)
    (hf : ∀ w, (f w).id = w.id := by intro w; rfl) : Db :=
  { db with waits := db.waits.update (fun w => w.id == id && w.status == .active) f hf }

def invalidate (db : Db) (now : Time) (id : String) : Db :=
  db.updateActive id fun w => { w with status := .invalidated, updated := now }

end Db

namespace WorkWaitRepository

/-- `cancel`. -/
def cancel (db : Db) (now : Time) (lease : WorkLease) (workId : String) : Except Err (Db × Bool) := do
  WorkRepository.assertLease db now lease
  let selected (w : WaitRow) : Bool :=
    w.workId == workId && w.conversationId == lease.conversationId &&
      w.generation == lease.generation && w.status == .active
  return ({ db with
      waits := db.waits.update selected (fun w => { w with status := .cancelled, updated := now })
        (WaitRow.id_withStatus .cancelled now) }, db.waits.rows.any selected)

/-- The largest event a condition was met by. -/
def lastEvent (conditions : List Condition) : Option Int :=
  (conditions.filterMap fun c =>
    match c.matched with
    | some (.event eventId _ _ _) => some eventId
    | _ => none).max?

/-- The signal in the mailbox of the Work. -/
def signalInput (b : Binding) (conditions : List Condition) (reason : SignalReason) (now : Time)
    (sourceEventId : Option Int) : InputRow where
  id := 0
  conversationId := b.conversationId
  generation := b.generation
  sourceKey := "wait:" ++ b.id
  eventId := sourceEventId.or (lastEvent conditions)
  workId := some b.workId
  kind := "control"
  payload := .workSignal b.id reason conditions now
  created := now

def endStatus : SignalReason → WaitStatus
  | .deadline => .expired
  | _ => .delivered

/-- The Work a signal arrives for. -/
def wakeSignalled (db : Db) (now : Time) (workId : String) : Db :=
  { db with
    works := db.works.update
      (fun w => w.id == workId && (w.state == .waitingExternal || w.state == .waitingUser))
      fun w => { w with state := .queued, reason := some "wait_signal_arrived",
                        revision := w.revision + 1, updated := now } }

def endWait (db : Db) (now : Time) (id : String) (conditions : List Condition)
    (reason : SignalReason) : Db :=
  db.updateActive id fun w =>
    { w with status := endStatus reason, conditions := conditions, updated := now,
             delivered := some now }

/-- The end of an active wait: its signal is queued and its Work woken. -/
def deliverActive (db : Db) (b : Binding) (conditions : List Condition) (reason : SignalReason)
    (now : Time) (sourceEventId : Option Int) : Db × Option Nat :=
  let inserted := (endWait db now b.id conditions reason).insertInput
    (signalInput b conditions reason now sourceEventId)
  (wakeSignalled inserted.1 now b.workId, inserted.2)

/-- `_deliver`; `original` holds the joined columns of the binding, if it has them. -/
def deliver (db : Db) (b : Binding) (original : Option Original) (conditions : List Condition)
    (reason : SignalReason) (now : Time) (sourceEventId : Option Int) : Db × Option Nat :=
  let o := original.getD (db.original b)
  if (o.alive b.generation && o.recorded b) = false then (db.invalidate now b.id, none)
  else if db.isActive b.id = false then (db, none)
  else deliverActive db b conditions reason now sourceEventId

/-- What a callback was prepared with: the wait of its Work, if it has one. -/
structure PreparedWaitAction where
  binding : Option Binding
  original : Option Original
  conditions : List Condition
deriving DecidableEq

/-- `prepare_external_action`. -/
def prepareExternalAction (db : Db) (workId : String) : PreparedWaitAction :=
  match (db.dueRows fun w => w.workId == workId).head? with
  | some row => ⟨some row.binding, some row.original, row.conditions⟩
  | none => ⟨none, none, []⟩

/-- `external_action_current`. -/
def externalActionCurrent (db : Db) (workId : String) (prepared : PreparedWaitAction) : Bool :=
  prepareExternalAction db workId == prepared

def awaitsRun (runId : String) (conditions : List Condition) : Bool :=
  conditions.any fun c => c.kind == .ownedRun runId

/-- `signal_external_action`. -/
def signalExternalAction (db : Db) (now : Time) (workId runId : String)
    (prepared : PreparedWaitAction) : Db :=
  match db.works.get? workId with
  | none => db
  | some owner =>
    if owner.state.terminal || owner.state == .suspended || owner.state == .waitingUser then db
    else match prepared.binding with
      | some b =>
        if awaitsRun runId prepared.conditions then
          (deliver db b prepared.original prepared.conditions .requiresAction now none).1
        else db
      | none =>
        { db with
          works := db.works.update (fun w => w.id == workId && w.state == .waitingExternal)
            fun w => { w with state := .queued, reason := some "external_agent_requires_action",
                              revision := w.revision + 1, updated := now } }

/-- The arguments of `register` beside the lease. -/
structure Registration where
  workId : String
  source : Json
  callKey : String
  mode : String
  conditions : Json
  deadlineAt : Option String
  accepted : Option Json

namespace Registration

def waitMode (r : Registration) : Option WaitMode :=
  if r.callKey = "" then none
  else if r.mode = "any" then some .any
  else if r.mode = "all" then some .all
  else none

def requestJson (r : Registration) : Json :=
  Json.sortKeys (.obj [("mode", .str r.mode), ("conditions", r.conditions),
    ("deadline_at", (r.deadlineAt.map .str).getD .null)])

/-- The kind and id of the principal that registers. -/
def principal (r : Registration) : Except Err (String × String) :=
  match r.source.getD "principal_kind" (.str "person"), r.source.get "actor_person_id" with
  | .str "self", _ => .ok ("self", "self")
  | .str "person", .str id =>
    if id = "" then .error (.valueError "wait_principal_unavailable") else .ok ("person", id)
  | _, _ => .error (.valueError "wait_principal_unavailable")

end Registration

/-- The principal check of `register`: the recorded one, or the same person under another id. -/
def principalAdmitted (db : Db) (kind id : String) (o : Original) : Bool :=
  o.sourceKind == .text kind &&
    (o.principal == .text id || (kind == "person" && samePerson db (.text id) o.principal))

/-- A plugin may be waited for where it holds an enabled grant for the conversation. -/
def pluginGranted (db : Db) (conversation : ConversationRow) (pluginId : String) : Bool :=
  db.pluginGrants.rows.any fun g =>
    g.pluginId == pluginId && g.enabled && g.installationEnabled &&
      match conversation.spaceId with
      | some space => g.targetSpaceId == some space
      | none => g.targetPersonId == conversation.personId

def grantedCondition (db : Db) (conversation : ConversationRow) (c : Condition) : Bool :=
  match c.kind with
  | .pluginEvent plugin _ _ _ => pluginGranted db conversation plugin
  | _ => true

/-- The newest event of a conversation. -/
def watermark (db : Db) (conversationId : String) : Int :=
  ((db.events.rows.filter fun e => e.canonicalConversationId == some conversationId).map
    EventRow.id).max?.getD 0

/-- `set_accepted_control`. -/
def setAcceptedControl (db : Db) (now : Time) (lease : WorkLease) (identity : String)
    (control : Option Json) : Except Err Db := do
  let selected (w : WorkRow) : Bool :=
    w.id == identity && w.conversationId == lease.conversationId &&
      w.generation == lease.generation && !w.state.terminal
  require (db.works.rows.any selected = true) (.workConflict "work_checkpoint_obsolete")
  return { db with
    works := db.works.update selected fun w =>
      { w with updated := now,
               checkpointJson := match control with
                | some c => Sql.jsonSet w.checkpointJson ["accepted_control"] c.sortKeys
                | none => Sql.jsonRemove w.checkpointJson ["accepted_control"] } }

/-- The callbacks of external runs that arrived before the wait. -/
def pendingRuns (db : Db) (workId : String) : List String :=
  db.inputs.rows.filterMap fun i =>
    if i.workId == some workId && i.state == .pending then
      match Sql.jsonExtract i.payload.json ["external_run_id"] with
      | .text run => some run
      | _ => none
    else none

/-- `INSERT INTO runtime_work_waits`, under its keys, its unique index and its check. -/
def insertWait (db : Db) (w : WaitRow) : Except Err Db := do
  require (w.id ∉ db.waits.rows.map WaitRow.id ∧
      (∀ v ∈ db.waits.rows, v.callKey ≠ w.callKey) ∧ db.hasActiveWait w.workId = false ∧
      ((w.principalKind = "self" ∧ w.principalId = "self") ∨
        (w.principalKind = "person" ∧ w.principalId ≠ "" ∧ w.principalId ≠ "self")))
    (.runtime "IntegrityError")
  return { db with waits := db.waits.insert w }

/-- The new wait of `register`, replacing the active one. -/
def registerNew (db : Db) (now : Time) (lease : WorkLease) (r : Registration) (w : WaitRow) :
    Except Err Db := do
  let registered ← insertWait (db.cancelActiveWaits now r.workId) w
  let decided ← match r.accepted with
    | none => .ok registered
    | some accepted =>
      setAcceptedControl registered now lease r.workId (some (accepted.set "wait_id" (.str w.id)))
  return (pendingRuns decided r.workId).foldl (fun d run =>
    signalExternalAction d now r.workId run ⟨some w.binding, none, w.conditions⟩) decided

section Registering

variable (timestamp : String → Option (Option Time))

def readDeadline : Option String → Except Err (Option Time)
  | none => .ok none
  | some raw => (readTimestamp timestamp raw).map some

/-- The row `register` inserts. -/
def registeredRow (db : Db) (now : Time) (lease : WorkLease) (r : Registration) (mode : WaitMode)
    (conditions : List Condition) (deadline : Option Time) (principal : String × String)
    (fresh : String) : WaitRow where
  id := fresh
  workId := r.workId
  conversationId := lease.conversationId
  generation := lease.generation
  principalKind := principal.1
  principalId := principal.2
  callKey := r.callKey
  requestJson := r.requestJson
  mode := mode
  conditions := conditions.map (Condition.withWatermark (watermark db lease.conversationId))
  status := .active
  deadline := deadline
  created := now
  updated := now

/-- `register`; `fresh` is the generated id. Returns the id of the wait. -/
def register (db : Db) (now : Time) (lease : WorkLease) (r : Registration) (fresh : String) :
    Except Err (Db × String) := do
  let mode ← expect r.waitMode (.valueError "invalid_wait_registration")
  let normalized ← normalizeConditions timestamp now r.conditions
  let deadline ← readDeadline timestamp r.deadlineAt
  let principal ← r.principal
  WorkRepository.assertLease db now lease
  let row ← expect ((WorkRepository.leased db lease r.workId).filter fun w => !w.state.terminal)
    (.workConflict "wait_work_source_changed")
  let wait := registeredRow db now lease r mode normalized deadline principal fresh
  require (principalAdmitted db principal.1 principal.2 (db.original wait.binding) = true)
    (.workConflict "wait_work_source_changed")
  let conversation ← expect (db.conversations.get? row.conversationId)
    (.workConflict "wait_conversation_missing")
  require (∀ c ∈ normalized, grantedCondition db conversation c = true)
    (.permissionError "plugin_wait_target_not_granted")
  match db.waits.rows.find? fun w => w.callKey == r.callKey with
  | some existing => do
    require (existing.workId = r.workId ∧ existing.requestJson = r.requestJson)
      (.workConflict "wait_call_conflict")
    require (existing.status = .active) (.workConflict "wait_already_resolved")
    return (db, existing.id)
  | none => do
    let registered ← registerNew db now lease r wait
    return (registered, fresh)

end Registering

/-! Events. -/

/-- `prepare_event_waits`: the active waits of a conversation, old texts dropped. -/
def prepareEventWaits (db : Db) (conversationId : String) : List DueRow :=
  db.dueRows fun w => w.conversationId == conversationId

/-- `event_waits_current`. -/
def eventWaitsCurrent (db : Db) (conversationId : String) (prepared : List DueRow) : Bool :=
  prepareEventWaits db conversationId == prepared

/-- Whether an event may meet conditions of this kind at all. -/
def eventServes (kind : EventKind) (e : EventRow) : Bool :=
  e.suppressionStatus == "keeper" &&
    match kind with
    | .conversation => e.direction == "inbound" && e.eventKind == "message"
    | .pluginEvent => e.direction == "external" && e.eventKind == "external_event" &&
        e.sourcePluginId.any (· ≠ "") && e.externalResumeWait

/-- Whether an event meets an open condition. -/
def eventMeets (kind : EventKind) (e : EventRow) (c : Condition) : Bool :=
  c.open_ &&
    match kind, c.kind with
    | .conversation, .conversation after => decide (after < e.id)
    | .pluginEvent, .pluginEvent plugin type source after =>
      decide (after < e.id) && e.sourcePluginId == some plugin &&
        e.externalEventType == some type &&
        (source.isNone || source == e.externalSource)
    | _, _ => false

/-- The condition after the event. -/
def meetEvent (kind : EventKind) (e : EventRow) (now : Time) (c : Condition) : Condition :=
  if eventMeets kind e c.dropText then { c with matched := some (.event e.id kind now none) }
  else c.dropText

/-- The effect of one event: the database, the signal it queued, whether it met anything. -/
structure EventEffect where
  db : Db
  delivered : Option Nat := none
  matchedAny : Bool := false

/-- One wait of `apply_event`. -/
def applyToWait (kind : EventKind) (e : EventRow) (now : Time) (s : EventEffect) (row : DueRow) :
    EventEffect :=
  if (row.conditions.any fun c => eventMeets kind e c.dropText) = false then s
  else
    let conditions := row.conditions.map (meetEvent kind e now)
    if row.mode.met conditions then
      let source := if kind = .conversation then some e.id else none
      let (db, entry) := deliver s.db row.binding (some row.original) conditions .signal now source
      ⟨db, entry.or s.delivered, true⟩
    else
      ⟨s.db.updateActive row.binding.id fun w => { w with conditions := conditions, updated := now },
        s.delivered, true⟩

/-- The waits an event reaches: those of its conversation in the current generation. -/
def eventWaits (prepared : List DueRow) (e : EventRow) (c : ConversationRow) : List DueRow :=
  prepared.filter fun row =>
    e.canonicalConversationId == some row.binding.conversationId &&
      row.binding.generation == c.generation

/-- `apply_event`; `hook` is what the delivery hook raises, if anything. -/
def applyEvent (db : Db) (now : Time) (eventId : Int) (kind : EventKind) (prepared : List DueRow)
    (hook : Except Err Unit) : Except Err (Db × Option Nat) :=
  match db.events.get? eventId with
  | none => .ok (db, none)
  | some e =>
    match (e.canonicalConversationId.filter fun id => id ≠ "").bind db.conversations.get? with
    | none => .ok (db, none)
    | some conversation =>
      if eventServes kind e = false then .ok (db, none)
      else do
        let effect := (eventWaits prepared e conversation).foldl (applyToWait kind e now) ⟨db, none, false⟩
        onlyIf effect.delivered.isSome () hook
        return (effect.db, effect.delivered.or (if effect.matchedAny then some 0 else none))

/-- Whether an event could meet an open condition of a prepared wait. -/
def mayMatch (eventId : Int) (kind : EventKind) (prepared : List DueRow) : Bool :=
  prepared.any fun row => row.conditions.any fun c =>
    c.open_ &&
      match kind, c.kind with
      | .conversation, .conversation after => decide (after < eventId)
      | .pluginEvent, .pluginEvent _ _ _ after => decide (after < eventId)
      | _, _ => false

/-- `apply_event` in a writer that first proves its waits current; `none` asks to prepare again. -/
def applyCurrent (db : Db) (now : Time) (eventId : Int) (kind : EventKind) (conversationId : String)
    (prepared : List DueRow) (hook : Except Err Unit) : Except Err (Db × Option (Option Nat)) :=
  if eventWaitsCurrent db conversationId prepared then
    (applyEvent db now eventId kind prepared hook).map fun r => (r.1, some r.2)
  else .ok (db, none)

/-- One round of `_match_prepared_event`, on waits prepared earlier. -/
def matchRound (db : Db) (now : Time) (eventId : Int) (kind : EventKind) (conversationId : String)
    (prepared : List DueRow) (hook : Except Err Unit) : Except Err (Db × Option (Option Nat)) :=
  if mayMatch eventId kind prepared then applyCurrent db now eventId kind conversationId prepared hook
  else .ok (db, some none)

/-! Replies of a user. -/

/-- `LOCAL_CLIENT_PLATFORMS`. -/
def localClientPlatforms : List String := ["app", "acp"]

def isReply (e : EventRow) : Bool :=
  e.replyToEventId.isSome || e.ingressPlatform.any localClientPlatforms.contains

/-- The message quoted by an event was sent for the Work's own turn. -/
def quotesWork (db : Db) (e : EventRow) (conversationId : String) (w : WorkRow) : Bool :=
  match e.replyToEventId, Sql.jsonExtract w.sourceJson ["trigger_event_id"] with
  | none, _ => true
  | some quoted, .int trigger => db.socialOperations.rows.any fun s =>
      s.sourceConversationId == conversationId &&
        s.sourceTurnId == conversationId ++ ":event:" ++ toString trigger &&
        s.eventId == some quoted && s.status == "succeeded"
  | _, _ => false

/-- A Work waiting for this person's answer. -/
def awaitsReply (db : Db) (e : EventRow) (author : String) (c : ConversationRow) (w : WorkRow) :
    Bool :=
  w.conversationId == c.id && w.generation == c.generation && w.state == .waitingUser &&
    isText (Sql.jsonExtract w.sourceJson ["origin"]) "user_message" &&
    isText (Sql.jsonType w.sourceJson ["trigger_event_id"]) "integer" &&
    samePerson db (sourcePersonId w.sourceJson) (.text author) && quotesWork db e c.id w

def replyInput (processId : String) (e : EventRow) (c : ConversationRow) (w : WorkRow)
    (now : Time) : InputRow where
  id := 0
  conversationId := c.id
  generation := c.generation
  sourceKey := "user-reply:" ++ toString e.id ++ ":" ++ w.id
  eventId := some e.id
  workId := some w.id
  kind := "message"
  ready := false
  prepareOwner := some processId
  payload := .doc (.obj [])
  created := now

/-- The Work an event answers, the one updated last first. -/
def repliedWork (db : Db) (eventId : Int) : Option (EventRow × ConversationRow × WorkRow) := do
  let e ← (db.events.get? eventId).filter fun e =>
    e.direction == "inbound" && e.eventKind == "message" && isReply e
  let author ← e.authorPersonId
  let c ← e.canonicalConversationId.bind db.conversations.get?
  let w ← ((db.works.rows.filter (awaitsReply db e author c)).mergeSort fun v w =>
    w.updated ≤ v.updated).head?
  return (e, c, w)

/-- `match_user_reply`: the mailbox row that now waits to be prepared. -/
def matchUserReply (db : Db) (now : Time) (processId : String) (eventId : Int) : Db × Option Nat :=
  match repliedWork db eventId with
  | none => (db, none)
  | some (e, c, w) =>
    let row := replyInput processId e c w now
    let inserted := (db.insertInput row).1
    (inserted, (inserted.inputBySource row.sourceKey).map InputRow.id)

end WorkWaitRepository

end Yuki

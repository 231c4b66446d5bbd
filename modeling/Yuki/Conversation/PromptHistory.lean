import Yuki.Conversation.EventPrompt

/-! The incremental grouping of a conversation's history, and its rendering
without the current event. -/

namespace Yuki

abbrev EventFragment := List EventId × ChatMessage

/-- The group that `main_agent_history_views` has open. -/
structure HistoryGroup where
  ids : List EventId
  lines : List String
  first : ChatMessage
  key : GroupKey
  startUtc : Time
  lastUtc : Time
  localDay : Int
deriving DecidableEq

structure HistoryViews where
  grouped : List (EventId × EventFragment)
  individual : List (EventId × EventFragment)
  opened : Option HistoryGroup
deriving DecidableEq

namespace HistoryGroup

def fragment (group : HistoryGroup) : EventFragment :=
  (group.ids, if group.ids.length = 1 then group.first
    else ⟨group.first.role, "\n".intercalate group.lines⟩)

def finish : Option HistoryGroup → List (EventId × EventFragment)
  | none => []
  | some group => [((group.ids.head?).getD 0, group.fragment)]

/-- The same sender and class, within five minutes of the start and on its day. -/
def within (group : HistoryGroup) (key : GroupKey) (utc : Time) (day : Int) : Bool :=
  decide (group.key = key ∧ group.lastUtc ≤ utc ∧ group.startUtc ≤ utc ∧
    utc ≤ group.startUtc + 300 ∧ group.localDay = day)

end HistoryGroup

namespace ChatEventPromptRenderer

variable (renderer : ChatEventPromptRenderer)

/-- One row of `main_agent_history_views`. -/
def viewRow (views : HistoryViews) (row : EventRecord) : Except Err HistoryViews := do
  if row.eventKind = .externalEvent then return views
  let message ← renderer.referenceMessage row none ""
  let rendered := strip message.content
  if rendered = "" then return views
  let individual := views.individual ++ [(row.id, [row.id], message)]
  let key := renderer.groupIdentity row
  let day := renderer.host.localDay row.occurredAt renderer.timezone
  let start : HistoryGroup :=
    ⟨[row.id], [message.content], message, key, row.occurredAt, row.occurredAt, day⟩
  match views.opened with
  | none => return ⟨views.grouped, individual, some start⟩
  | some group =>
    if group.within key row.occurredAt day then
      if let (_, some eventLine) := partitionLine rendered then
        let joined : HistoryGroup := { group with
          ids := group.ids ++ [row.id]
          lines := group.lines ++ [eventLine]
          lastUtc := row.occurredAt }
        return ⟨views.grouped, individual, some joined⟩
    return ⟨views.grouped ++ HistoryGroup.finish (some group), individual, some start⟩

def mainAgentHistoryViews (rows : List EventRecord) :
    Except Err (List (EventId × EventFragment) × List (EventId × EventFragment)) := do
  let views ← rows.foldlM renderer.viewRow ⟨[], [], none⟩
  return (views.grouped ++ HistoryGroup.finish views.opened, views.individual)

end ChatEventPromptRenderer

/-! The source's own index. -/

structure RawEvent where
  row : EventRecord
  key : GroupKey
  utc : Time
  day : Int
  visible : Bool
deriving DecidableEq

def RawEvent.continues (first last current : RawEvent) : Bool :=
  decide (first.key = current.key ∧ last.utc ≤ current.utc ∧
    (first.utc ≤ current.utc ∧ current.utc ≤ first.utc + 300) ∧ first.day = current.day)

structure PromptHistorySource where
  host : Host
  timezone : String
  /-- The events of the published projection, if there is one. -/
  published : Option (List EventId)
  scannedThrough : EventId
  references : EventPromptIndex
  metadata : List RawEvent
  positions : Dict EventId Nat
  groups : List (List EventId)
  groupOf : Dict EventId Nat
  visibleIds : List EventId
  pending : List EventId

/-- `bisect_right` on an ascending list. -/
def bisectRight (ids : List EventId) (id : EventId) : Nat :=
  (ids.takeWhile (· ≤ id)).length

/-- The row without its content. -/
def EventRecord.metadata (row : EventRecord) : EventRecord :=
  { row with content := "", segments := [], visualSummary := "", audioTranscript := "" }

namespace PromptHistorySource

def new (host : Host) (timezone : String) (published : Option (List EventId))
    (afterEventId : EventId) : PromptHistorySource :=
  ⟨host, timezone, published, afterEventId, .empty, [], [], [], [], [], []⟩

variable (source : PromptHistorySource)

/-- `_at`. -/
def «at» (id : EventId) : Except Err RawEvent :=
  match (source.positions.lookup id).bind (source.metadata[·]?) with
  | some item => .ok item
  | none => .error (.runtime "KeyError")

/-- An event joins the last group or opens one. -/
def addToGroups (groups : List (List EventId)) (item : RawEvent) :
    Except Err (List (List EventId)) := do
  match groups.getLast? with
  | none => return groups ++ [[item.row.id]]
  | some prior =>
    let first ← source.at (prior.head?.getD 0)
    let last ← source.at (prior.getLast?.getD 0)
    if first.continues last item then return groups.dropLast ++ [prior ++ [item.row.id]]
    return groups ++ [[item.row.id]]

def rawEvent (row : EventRecord) : Except Err RawEvent := do
  let content ← eventContent source.host row none ""
  let renderer : ChatEventPromptRenderer :=
    ⟨source.host, source.timezone, EventPromptIndex.empty.capture 0 []⟩
  return ⟨row.metadata, renderer.groupIdentity row, row.occurredAt,
    source.host.localDay row.occurredAt source.timezone, content ≠ ""⟩

/-- One row of `extend`, with the new metadata rows so far. -/
def addRow (state : PromptHistorySource × List EventRecord) (row : EventRecord) :
    Except Err (PromptHistorySource × List EventRecord) := do
  let (source, added) := state
  if (source.positions.lookup row.id).isSome then return state
  let item ← source.rawEvent row
  let source := { source with
    positions := Dict.set source.positions row.id source.metadata.length
    metadata := source.metadata ++ [item] }
  let added := added ++ [item.row]
  if !item.visible then return (source, added)
  let groups ← source.addToGroups source.groups item
  return ({ source with
    visibleIds := source.visibleIds ++ [row.id]
    pending := if source.published.all (row.id ∉ ·) then source.pending ++ [row.id]
      else source.pending
    groups := groups
    groupOf := Dict.set source.groupOf row.id (groups.length - 1) }, added)

def extend (rows : List EventRecord) (throughEventId : EventId) :
    Except Err PromptHistorySource := do
  let (source, added) ← rows.foldlM addRow (source, [])
  return { source with
    references := source.references.extend added
    scannedThrough := max source.scannedThrough throughEventId }

/-- The window loop of `_excluded_groups`: group the events without the current one until an
event past it opens a group that it also opens in the source. -/
def scanWindow (current through : EventId) :
    List RawEvent → List (List EventId) → Bool → Except Err (List (List EventId))
  | [], groups, _ => .ok groups
  | item :: items, groups, passed =>
    if through < item.row.id then .ok groups
    else if item.row.id = current then scanWindow current through items groups true
    else if !item.visible then scanWindow current through items groups passed
    else do
      let groups ← source.addToGroups groups item
      let original := (source.groupOf.lookup item.row.id).bind (source.groups[·]?)
      match original with
      | none => .error (.runtime "KeyError")
      | some original =>
        if passed && (groups.getLast?.bind (·.head?) == original.head?) then
          .ok groups.dropLast
        else scanWindow current through items groups passed

def excludedGroups (currentEventId : Option EventId) (throughEventId : EventId) :
    Except Err (Dict EventId (List EventId)) :=
  match currentEventId with
  | none => .ok []
  | some current =>
    match source.groupOf.lookup current with
    | none => .ok []
    | some groupNumber => do
      let visibleEnd := bisectRight source.visibleIds throughEventId
      if visibleEnd ≠ 0 ∧ source.visibleIds[visibleEnd - 1]? = some current then return []
      let firstGroup := (source.groups[groupNumber - 1]?).getD []
      match source.positions.lookup (firstGroup.head?.getD 0) with
      | none => .error (.runtime "KeyError")
      | some start => do
        let groups ← source.scanWindow current throughEventId (source.metadata.drop start) [] false
        return Dict.ofList (groups.flatMap fun ids => ids.map fun id => (id, ids))

/-- Where an event is collected: the first event of its group, and the size of the group. -/
def anchorOf (overrides : Dict EventId (List EventId)) (throughEventId : EventId)
    (currentEventId : Option EventId) (id : EventId) (number : Nat) : EventId × Int :=
  match overrides.lookup id with
  | some ids => (ids.head?.getD 0, ids.length)
  | none =>
    let group := (source.groups[number]?).getD []
    let excluded := currentEventId.any fun current =>
      decide (current ≤ throughEventId) && (source.groupOf.lookup current == some number)
    (group.head?.getD 0, bisectRight group throughEventId - if excluded then 1 else 0)

/-- `selected.setdefault(anchor, (count, []))[1].append(event_id)`. -/
def select (overrides : Dict EventId (List EventId)) (throughEventId : EventId)
    (currentEventId : Option EventId) (selected : Dict EventId (Int × List EventId))
    (id : EventId) : Dict EventId (Int × List EventId) :=
  match source.groupOf.lookup id with
  | none => selected
  | some number =>
    let (anchor, count) := source.anchorOf overrides throughEventId currentEventId id number
    let (count, chosen) := (selected.lookup anchor).getD (count, [])
    Dict.set selected anchor (count, chosen ++ [id])

/-- A group with all its members is rendered as one; otherwise its members are rendered alone. -/
def emit (renderer : ChatEventPromptRenderer) (fresh : Dict EventId EventRecord)
    (out : List EventFragment × List EventFragment) (entry : EventId × Int × List EventId) :
    Except Err (List EventFragment × List EventFragment) := do
  let rows := entry.2.2.filterMap fun id => fresh.lookup id
  if (rows.length : Int) = entry.2.1 then
    let (batches, individual) ← renderer.mainAgentHistoryViews rows
    return (out.1 ++ batches.map (·.2), out.2 ++ individual.map (·.2))
  rows.foldlM (fun out row => do
    let message ← renderer.referenceMessage row none ""
    if strip message.content = "" then return out
    return (out.1 ++ [([row.id], message)], out.2 ++ [([row.id], message)])) out

def render (rows : List EventRecord) (references : EventPromptReferences)
    (throughEventId : EventId) (currentEventId : Option EventId) :
    Except Err (List EventFragment × List EventFragment) := do
  let renderer : ChatEventPromptRenderer := ⟨source.host, source.timezone, references⟩
  let fresh := Dict.ofList ((rows.filter fun row => some row.id ≠ currentEventId).map fun row =>
    (row.id, row))
  let overrides ← source.excludedGroups currentEventId throughEventId
  let selected := (Dict.keys fresh).foldl
    (source.select overrides throughEventId currentEventId) []
  (selected.mergeSort fun a b => decide (a.1 ≤ b.1)).foldlM (emit renderer fresh) ([], [])

end PromptHistorySource

end Yuki

import Yuki.Conversation.FrozenRuns
import Yuki.Lib.Attempt
import Yuki.Lib.JsonText
import Yuki.Lib.Table
import Yuki.Lib.Utf8

/-! Atomic bounded current model-input chunks, never delivery facts. -/

namespace Yuki.Projection

open Compaction (strOrNull)
open Frozen

inductive Failure
  | projectionConflict (message : String)
  | projectionCapacity (message : String)
  | valueError (message : String)
  | assertion
  | integrity
  | frozen (failure : Frozen.Failure)
deriving DecidableEq

def rebuildReasons : List String :=
  ["bootstrap", "reset", "compact", "capacity", "deleted_event", "source_changed"]

/-- The selected summary of a head. -/
structure Summary where
  text : Option String := none
  coverage : Int := 0
  kind : Option String := none
  renderer : Option Int := none
deriving DecidableEq

/-- `if selected_summary_text`. -/
def Summary.Present (s : Summary) : Prop :=
  s.text.any (· ≠ "") = true

instance (s : Summary) : Decidable s.Present :=
  inferInstanceAs (Decidable (_ = true))

/-- `canonical_conversations`. -/
structure ConversationRow where
  id : String
  generation : Int
  startsAfterEventId : Int
  promptSourceRevision : Int
  lastEventId : Int

/-- `prompt_projections`. -/
structure ProjectionRow where
  viewKey : String
  conversationId : String
  generation : Int
  sourceRevision : Int
  startsAfterEventId : Int
  epochId : String
  contextKey : String
  revision : Nat
  rebuildReason : String
  invalidatedReason : Option String
  tailOrdinal : Nat
  itemCount : Nat
  byteSize : Nat
  updatedAt : Int
  summary : Summary

abbrev Item := Dict String Json

/-- `prompt_projection_chunks`, with the payload as its list of items. -/
structure ChunkRow where
  viewKey : String
  epochId : String
  ordinal : Nat
  payload : List Item

def ChunkRow.key (row : ChunkRow) : String × String × Nat :=
  (row.viewKey, row.epochId, row.ordinal)

/-- `context_selections`. -/
structure SelectionRow where
  viewKey : String
  sourceKey : String
  conversationId : String
  generation : Int
  eventIdsJson : String
  minEventId : Int
  maxEventId : Int
  payloadJson : String
  createdAt : Int
deriving DecidableEq

def SelectionRow.key (row : SelectionRow) : String × String :=
  (row.viewKey, row.sourceKey)

structure Db where
  conversations : Table ConversationRow.id := .empty
  privacyGeneration : Int := 0
  rows : Table ProjectionRow.viewKey := .empty
  chunks : Table ChunkRow.key := .empty
  selections : Table SelectionRow.key := .empty

/-- `_prefix_version`. -/
structure PrefixVersion where
  viewKey : String
  conversationId : String
  epochId : String
  revision : Nat
  generation : Int
  sourceRevision : Int
  startsAfterEventId : Int
  contextKey : String
  invalidatedReason : Option String
deriving DecidableEq

def prefixVersion (row : ProjectionRow) : PrefixVersion :=
  ⟨row.viewKey, row.conversationId, row.epochId, row.revision, row.generation, row.sourceRevision,
    row.startsAfterEventId, row.contextKey, row.invalidatedReason⟩

/-- `ProjectionSnapshot`. It is frozen and made from a row only, so that what it repeats
of the row is read off its stamp, and its origin is its own. -/
structure Snapshot where
  prefixStamp : PrefixVersion
  fragments : FrozenFragments
  rebuildReason : String
  summary : Summary
  tailOrdinal : Nat
  byteSize : Nat
deriving DecidableEq

/-- `_snapshot`. -/
def snapshot (row : ProjectionRow) (fragments : FrozenFragments) : Snapshot :=
  ⟨prefixVersion row, fragments, row.rebuildReason, row.summary, row.tailOrdinal, row.byteSize⟩

/-- The budgets of `PromptProjectionRepository`. -/
structure Repository where
  maxViewBytes : Nat := 8 * 1024 * 1024
  totalBytes : Nat := 16 * 1024 * 1024
  maximumViews : Nat := 128
  positive : 0 < min (min maxViewBytes totalBytes) maximumViews
deriving DecidableEq

def Repository.viewBytes (self : Repository) : Nat :=
  min self.maxViewBytes self.totalBytes

/-! Items and their text. -/

/-- `FrozenFragment.item`. -/
def item (fragment : FrozenFragment) : Item :=
  [("kind", .str "model_input"), ("event_ids", .arr (fragment.eventIds.map .int)),
    ("message", .obj [("role", .str fragment.message.role),
      ("content", strOrNull fragment.message.content)])]

def encodeItems (items : List Item) : String :=
  (Json.arr (items.map .obj)).minify

/-- `_encode_item`. -/
def encodeItem (item : Item) : String :=
  (Json.obj item).minify

/-- `len(text.encode("utf-8"))`. -/
def utf8Length (text : String) : Nat :=
  (Utf8.encode text.toList).length

/-- `_selection_key`; `digest` stands for SHA-256. -/
def selectionKey (digest : String → String) (item : Item) : String :=
  digest (field item "event_ids").dumps

/-! Reading. -/

/-- A call on candidates takes its identities whether it returns or raises. -/
def act (w : Frozen.World) (call : Call) : Except Failure FrozenFragments × Frozen.World :=
  match call.run w.next with
  | .ok q =>
    (.ok q, ⟨w.values ++ [q], w.edges ++ (call.receiver.map (·, q)).toList, w.next + call.cost⟩)
  | .error e => (.error (.frozen e), { w with next := w.next + call.cost })

/-- The payloads of an epoch after one ordinal up to another, in their order. -/
def Db.payloads (db : Db) (viewKey epochId : String) (after upTo : Nat) : List (List Item) :=
  (List.range (upTo - after)).filterMap fun n =>
    (db.chunks.get? (viewKey, epochId, after + n + 1)).map (·.payload)

/-- Every payload is loaded by itself, and its block extends the prefix. -/
def extendPayloads (w : Frozen.World) (fragments : FrozenFragments) :
    List (List Item) → Except Failure FrozenFragments × Frozen.World
  | [] => (.ok fragments, w)
  | payload :: rest =>
    match act w (.load payload) with
    | (.error e, w) => (.error e, w)
    | (.ok block, w) =>
      match act w (.extendBlocks fragments [block.iterFragments]) with
      | (.error e, w) => (.error e, w)
      | (.ok next, w) => extendPayloads w next rest

/-- The cached snapshot still describes a prefix of the row's epoch. -/
def sameEpoch (row : ProjectionRow) (previous : Snapshot) : Bool :=
  previous.prefixStamp.epochId = row.epochId && previous.tailOrdinal ≤ row.tailOrdinal &&
    previous.prefixStamp.sourceRevision = row.sourceRevision &&
    previous.prefixStamp.generation = row.generation

/-- What the payloads of a valid row, loaded over a prefix, make of it. -/
def loadRow (db : Db) (row : ProjectionRow) (w : Frozen.World) (fragments : FrozenFragments)
    (after : Nat) : Except Failure Snapshot × Frozen.World :=
  match extendPayloads w fragments (db.payloads row.viewKey row.epochId after row.tailOrdinal) with
  | (.error e, w) => (.error e, w)
  | (.ok fragments, w) =>
    if fragments.len = row.itemCount then (.ok (snapshot row fragments), w)
    else (.error (.projectionConflict "current projection chunks are incomplete"), w)

/-- `read_row`; `previous` is the snapshot of the view that the repository kept, if any. -/
def readRow (db : Db) (row : ProjectionRow) (previous : Option Snapshot) (w : Frozen.World) :
    Except Failure Snapshot × Frozen.World :=
  match previous.filter fun p => p.prefixStamp = prefixVersion row with
  | some previous => (.ok previous, w)
  | none =>
    match row.invalidatedReason, previous.filter (sameEpoch row) with
    | none, some previous => loadRow db row w previous.fragments previous.tailOrdinal
    | none, none =>
      match act w (.load []) with
      | (.error e, w) => (.error e, w)
      | (.ok empty, w) => loadRow db row w empty 0
    | some _, _ =>
      match act w (.load []) with
      | (.error e, w) => (.error e, w)
      | (.ok empty, w) => (.ok (snapshot row empty), w)

/-- The row that `read` selects. -/
def Db.current (db : Db) (viewKey : String) : Option ProjectionRow :=
  (db.rows.get? viewKey).filter fun row =>
    row.invalidatedReason = none && (db.conversations.get? row.conversationId).any fun owner =>
      row.generation = owner.generation && row.sourceRevision = owner.promptSourceRevision &&
        row.startsAfterEventId = owner.startsAfterEventId

/-- The row that `current_checkpoint_query` selects: it survives eviction. -/
def Db.checkpoint (db : Db) (conversationId : String) : Option ProjectionRow :=
  (db.rows.get? conversationId).filter fun row =>
    (db.conversations.get? row.conversationId).any fun owner =>
      row.generation = owner.generation && row.sourceRevision = owner.promptSourceRevision &&
        row.startsAfterEventId = owner.startsAfterEventId &&
        row.summary.text.any (fun text => text.toList.any (· ≠ ' ')) &&
        owner.startsAfterEventId ≤ row.summary.coverage && row.summary.coverage ≤ owner.lastEventId

/-! Preparing. -/

/-- The arguments of `prepare_commit`; `previousSnapshot` is the one passed in, or read
where none was. -/
structure Commit where
  viewKey : String
  conversationId : String
  generation : Int
  expectedSourceRevision : Int
  startsAfterEventId : Int
  contextKey : String
  fragments : FrozenFragments
  expectedEpoch : Option String := none
  expectedRevision : Nat := 0
  rebuildReason : Option String := none
  summary : Summary := {}
  previousSnapshot : Option Snapshot := none
  write : Bool := true
deriving DecidableEq

/-- The sizes carried forward over the blocks, and what the blocks become. -/
structure Encoded where
  size : Nat
  count : Nat
  encoded : List (List Item) := []

def Encoded.add (e : Encoded) (block : List FrozenFragment) : Encoded :=
  let items := block.map item
  if items = [] then e
  else
    { size := e.size + (utf8Length (encodeItems items) - 2 + (if e.count = 0 then 0 else 1))
      count := e.count + items.length
      encoded := e.encoded ++ [items] }

/-- A prepared publication. -/
structure Publication where
  repository : Repository
  commit : Commit
  size : Nat
  count : Nat
  tail : Nat
  encoded : List (List Item)
  preparedPrivacy : Int
  existing : List SelectionRow
  preparedSources : List SelectionRow
deriving DecidableEq

def requireOwner (db : Db) (c : Commit) : Except Failure Unit :=
  require ((db.conversations.get? c.conversationId).any fun owner =>
      (owner.generation, owner.startsAfterEventId, owner.promptSourceRevision) =
        (c.generation, c.startsAfterEventId, c.expectedSourceRevision))
    (.projectionConflict "projection source changed")

/-- The additions by their key; two under one key must read the same. -/
def candidates (digest : String → String) (known : Dict String Item) :
    List Item → Except Failure (Dict String Item)
  | [] => .ok known
  | item :: rest => do
    let key := selectionKey digest item
    require ((known.lookup key).all fun other => encodeItem other = encodeItem item)
      (.projectionConflict "selected representation identity conflict")
    candidates digest (Dict.set known key item) rest

/-- The row of a candidate that has none yet; one that has must agree with it. -/
def prepareSource (db : Db) (c : Commit) (now : Int) (candidate : String × Item) :
    Except Failure (Option SelectionRow) :=
  let ids := itemIds candidate.2
  let idsJson := (field candidate.2 "event_ids").dumps
  match db.selections.get? (c.viewKey, candidate.1) with
  | some row => do
    require ((row.conversationId, row.generation, row.eventIdsJson) =
        (c.conversationId, c.generation, idsJson))
      (.projectionConflict "selected representation owner changed")
    require (c.rebuildReason = none → row.payloadJson = encodeItem candidate.2)
      (.projectionConflict "selected representation is immutable")
    return none
  | none =>
    return some ⟨c.viewKey, candidate.1, c.conversationId, c.generation, idsJson,
      ids.min?.getD 0, ids.max?.getD 0, encodeItem candidate.2, now⟩

/-- Where the new blocks start: behind the snapshot, or at a new epoch. -/
def startOf (c : Commit) : Except Failure (Encoded × Nat × List (List FrozenFragment)) :=
  match c.rebuildReason with
  | none => do
    let previous ← expect c.previousSnapshot
      (.projectionConflict "missing projection requires explicit bootstrap")
    require (previous.prefixStamp.viewKey = c.viewKey)
      (.projectionConflict "projection snapshot origin changed")
    let blocks ← (c.fragments.deltaFrom previous.fragments).mapError .frozen
    return ({ size := previous.byteSize, count := previous.fragments.len }, previous.tailOrdinal,
      blocks)
  | some _ => return ({ size := 2, count := 0 }, 0, c.fragments.iterBlocks)

/-- `prepare_commit`. -/
def prepareCommit (self : Repository) (digest : String → String) (db : Db) (now : Int)
    (c : Commit) : Except Failure Publication := do
  require (c.rebuildReason.all (rebuildReasons.contains ·))
    (.valueError "invalid projection rebuild reason")
  let (start, tail, blocks) ← startOf c
  let e := blocks.foldl Encoded.add start
  require (e.size ≤ self.viewBytes) (.projectionCapacity "projection view budget exceeded")
  requireOwner db c
  let known ← candidates digest [] e.encoded.flatten
  let sources ← known.mapM (prepareSource db c now)
  return {
    repository := self
    commit := c
    size := e.size
    count := e.count
    tail := tail
    encoded := e.encoded
    preparedPrivacy := db.privacyGeneration
    existing := known.filterMap fun candidate => db.selections.get? (c.viewKey, candidate.1)
    preparedSources := sources.filterMap id }

/-! Publishing. -/

/-- The existing sources stand as they were read. -/
def sourcesCurrent (db : Db) (p : Publication) : Bool :=
  p.existing.all fun row => (db.selections.get? row.key).any fun current =>
    current.conversationId = row.conversationId && current.generation = row.generation &&
      current.eventIdsJson = row.eventIdsJson && current.payloadJson = row.payloadJson

def staleReset (c : Commit) (old : ProjectionRow) : Prop :=
  c.rebuildReason = some "reset" ∧ c.expectedEpoch = none ∧ c.expectedRevision = 0 ∧
    (old.generation, old.startsAfterEventId) ≠ (c.generation, c.startsAfterEventId)

instance (c : Commit) (old : ProjectionRow) : Decidable (staleReset c old) :=
  inferInstanceAs (Decidable (_ ∧ _))

def invalidated (c : Commit) (old : ProjectionRow) : Prop :=
  old.invalidatedReason ≠ none ∧ c.rebuildReason = old.invalidatedReason ∧
    c.expectedEpoch = none ∧ c.expectedRevision = 0

instance (c : Commit) (old : ProjectionRow) : Decidable (invalidated c old) :=
  inferInstanceAs (Decidable (_ ∧ _))

/-- The row's summary is of this very history, and is newer or another one. -/
def newerCheckpoint (c : Commit) (old : ProjectionRow) : Prop :=
  old.summary.Present ∧
    (old.generation, old.startsAfterEventId, old.sourceRevision) =
      (c.generation, c.startsAfterEventId, c.expectedSourceRevision) ∧
    (c.summary.coverage < old.summary.coverage ∨
      old.summary.coverage = c.summary.coverage ∧ old.summary.text ≠ c.summary.text)

instance (c : Commit) (old : ProjectionRow) : Decidable (newerCheckpoint c old) :=
  inferInstanceAs (Decidable (_ ∧ _))

/-- The checks of `publish` on the head it finds. -/
def requireHead (c : Commit) : Option ProjectionRow → Except Failure Unit
  | none =>
    require (c.expectedEpoch = none ∧ c.expectedRevision = 0 ∧ c.rebuildReason ≠ none)
      (.projectionConflict "missing projection requires explicit bootstrap")
  | some old => do
    require (old.conversationId = c.conversationId ∧ (staleReset c old ∨ invalidated c old ∨
        (some old.epochId, old.revision) = (c.expectedEpoch, c.expectedRevision)))
      (.projectionConflict "projection revision changed")
    require (¬ newerCheckpoint c old)
      (.projectionConflict "a newer checkpoint already owns this history")
    require (c.rebuildReason = none →
        c.previousSnapshot.map (·.prefixStamp) = some (prefixVersion old))
      (.projectionConflict "projection changed after preparation")
    require (c.rebuildReason = none →
        (old.invalidatedReason, old.generation, old.startsAfterEventId, old.contextKey) =
          (none, c.generation, c.startsAfterEventId, c.contextKey))
      (.projectionConflict "projection change requires a new epoch")
    require (c.rebuildReason = none → old.summary.Present → old.summary = c.summary)
      (.projectionConflict "summary representation requires a new epoch")

/-- There is something to write. -/
def Publication.writes (p : Publication) (old : Option ProjectionRow) : Bool :=
  p.commit.write &&
    !(p.encoded.isEmpty && p.commit.rebuildReason.isNone &&
      old.any fun row => row.summary = p.commit.summary)

def ProjectionRow.retired (reason : String) (now : Int) (row : ProjectionRow) : ProjectionRow :=
  { row with
    tailOrdinal := 0, itemCount := 0, byteSize := 2, invalidatedReason := some reason
    revision := row.revision + 1, updatedAt := now }

theorem ProjectionRow.viewKey_retired (reason : String) (now : Int) (row : ProjectionRow) :
    (row.retired reason now).viewKey = row.viewKey := rfl

/-- The heads of these views are retired, and a trigger deletes their chunks. -/
def Db.retire (db : Db) (views : List String) (reason : String) (now : Int) : Db :=
  { db with
    rows := db.rows.update (fun row => views.contains row.viewKey)
      (ProjectionRow.retired reason now) (ProjectionRow.viewKey_retired reason now)
    chunks := db.chunks.delete fun row => views.contains row.viewKey }

/-- The other valid heads. -/
def Db.others (db : Db) (viewKey : String) : List ProjectionRow :=
  db.rows.rows.filter fun row => row.viewKey ≠ viewKey && row.invalidatedReason.isNone

/-- The order in which views are evicted. -/
def olderThan (a b : ProjectionRow) : Bool :=
  a.updatedAt < b.updatedAt || (a.updatedAt = b.updatedAt && a.viewKey ≤ b.viewKey)

structure Room where
  victims : List String
  used : Nat
  views : Nat

/-- Victims are taken until the new size fits among the views that stay. -/
def makeRoom (self : Repository) (size : Nat) : List ProjectionRow → Nat → Nat → Room
  | [], used, views => ⟨[], used, views⟩
  | victim :: rest, used, views =>
    if used + size ≤ self.totalBytes ∧ views < self.maximumViews then ⟨[], used, views⟩
    else
      let room := makeRoom self size rest (used - victim.byteSize) (views - 1)
      { room with victims := victim.viewKey :: room.victims }

def roomFor (self : Repository) (db : Db) (viewKey : String) (size : Nat) : Room :=
  let others := db.others viewKey
  let used := (others.map (·.byteSize)).sum
  if self.totalBytes < used + size ∨ self.maximumViews ≤ others.length then
    makeRoom self size (others.mergeSort olderThan) used others.length
  else ⟨[], used, others.length⟩

/-- The head as it is written; a rebuild starts a new epoch at revision one. -/
def Publication.row (p : Publication) (old : Option ProjectionRow) (epoch : String) (now : Int) :
    ProjectionRow where
  viewKey := p.commit.viewKey
  conversationId := p.commit.conversationId
  generation := p.commit.generation
  sourceRevision := p.commit.expectedSourceRevision
  startsAfterEventId := p.commit.startsAfterEventId
  epochId := if p.commit.rebuildReason.isSome then epoch else (old.map (·.epochId)).getD epoch
  contextKey := p.commit.contextKey
  revision := if p.commit.rebuildReason.isSome then 1 else (old.map (·.revision + 1)).getD 1
  rebuildReason := p.commit.rebuildReason.getD ((old.map (·.rebuildReason)).getD "")
  invalidatedReason := none
  tailOrdinal := p.tail + p.encoded.length
  itemCount := p.count
  byteSize := p.size
  updatedAt := now
  summary := p.commit.summary

/-- The payloads stand behind each other from an ordinal on; a taken key is refused. -/
def insertChunks (viewKey epochId : String) :
    Nat → List (List Item) → Table ChunkRow.key → Except Failure (Table ChunkRow.key)
  | _, [], chunks => .ok chunks
  | ordinal, payload :: rest, chunks => do
    require (chunks.get? (viewKey, epochId, ordinal) = none) .integrity
    insertChunks viewKey epochId (ordinal + 1) rest
      (chunks.insert ⟨viewKey, epochId, ordinal, payload⟩)

def insertSelections : List SelectionRow → Table SelectionRow.key →
    Except Failure (Table SelectionRow.key)
  | [], selections => .ok selections
  | row :: rest, selections => do
    require (selections.get? row.key = none)
      (.projectionConflict "selected representation publication conflict")
    insertSelections rest (selections.insert row)

/-- A head under a new epoch has no chunks yet. -/
def Db.putHead (db : Db) (row : ProjectionRow) : Db :=
  { db with
    rows := db.rows.upsert row (fun _ => true) fun old => { row with viewKey := old.viewKey }
    chunks :=
      if (db.rows.get? row.viewKey).any fun old => old.epochId ≠ row.epochId then
        db.chunks.delete fun chunk => chunk.viewKey = row.viewKey
      else db.chunks }

/-- `publish`, in the transaction of its caller, which a raise rolls back. -/
def publish (db : Db) (p : Publication) (epoch : String) (now : Int) :
    Except Failure (Db × Snapshot) := do
  let c := p.commit
  requireOwner db c
  require (db.privacyGeneration = p.preparedPrivacy)
    (.projectionConflict "projection privacy changed")
  require (sourcesCurrent db p)
    (.projectionConflict "selected source changed after preparation")
  let old := db.rows.get? c.viewKey
  requireHead c old
  if p.writes old then do
    let room := roomFor p.repository db c.viewKey p.size
    require (room.used + p.size ≤ p.repository.totalBytes ∧
        room.views < p.repository.maximumViews)
      (.projectionCapacity "projection global budget exceeded")
    let row := p.row old epoch now
    let db := (db.retire room.victims "capacity" now).putHead row
    let chunks ← insertChunks c.viewKey row.epochId (p.tail + 1) p.encoded db.chunks
    let selections ← insertSelections p.preparedSources db.selections
    return ({ db with chunks := chunks, selections := selections }, snapshot row c.fragments)
  else do
    let previous ← expect c.previousSnapshot .assertion
    return (db, previous)

/-- `invalidate_view`. -/
def invalidateView (db : Db) (viewKey reason : String) (now : Int) : Except Failure Db := do
  require (reason ∈ rebuildReasons) (.valueError "invalid projection rebuild reason")
  return if (db.rows.get? viewKey).any (·.invalidatedReason.isNone) then
    db.retire [viewKey] reason now
  else db

end Yuki.Projection

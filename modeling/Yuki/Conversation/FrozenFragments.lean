import Mathlib.Algebra.GroupWithZero.Nat
import Mathlib.Data.List.Nodup
import Mathlib.Data.Int.Order.Basic
import Yuki.Compaction.Transcript
import Yuki.Lib.AvlTree
import Yuki.Lib.CoverIndex

/-! Immutable, structurally shared copies of submitted public input fragments. -/

namespace Yuki.Frozen

open Compaction (strOrNull)

/-- `hash(role)` fails on a list or a dictionary, before any check can reject it. -/
inductive Failure
  | projectionConflict (message : String)
  | typeError
deriving DecidableEq

abbrev EventFragment := List Int × Compaction.ChatMessage

def roles : List String := ["user", "assistant", "tool", "system"]

/-- Pixels, tool calls and opaque protocol are private request material. -/
def publicMessage (message : Compaction.ChatMessage) : Compaction.ChatMessage :=
  { role := message.role, content := message.content }

structure FrozenFragment where
  eventIds : List Int
  message : Compaction.ChatMessage
  positive : ∀ id ∈ eventIds, 0 < id
  nodup : eventIds.Nodup
  known : message.role ∈ roles
  plain : publicMessage message = message
deriving DecidableEq

def FrozenFragment.shape (fragment : FrozenFragment) : EventFragment :=
  (fragment.eventIds, fragment.message)

def FrozenFragment.characters (fragment : FrozenFragment) : Nat :=
  (fragment.message.content.getD "").length

/-- The chunk objects carry an identity; a chunk's predecessor is the rest of its list. -/
structure Chunk where
  ident : Nat
  fragments : List FrozenFragment
  count : Nat
  characters : Nat
  firstEventId : Option Int
deriving DecidableEq

structure FrozenFragments where
  tail : List Chunk
  ids : AvlTree Int
  owner : Nat
deriving DecidableEq

/-- The identifiers of `type(value) is int`. -/
def intKeys : List Json → Option (List Int)
  | [] => some []
  | .int n :: rest => (intKeys rest).map (n :: ·)
  | _ :: _ => none

def representation : Failure :=
  .projectionConflict "unsupported frozen message representation"

/-- The checks of `_freeze` on a message, in the order of its condition. -/
def frozenMessage (role content : Json) :
    Except Failure { m : Compaction.ChatMessage // m.role ∈ roles ∧ publicMessage m = m } :=
  match role with
  | .arr _ => .error .typeError
  | .obj _ => .error .typeError
  | .str r =>
    if hr : r ∈ roles then
      match content with
      | .null => .ok ⟨{ role := r }, hr, rfl⟩
      | .str c => .ok ⟨{ role := r, content := some c }, hr, rfl⟩
      | _ => .error representation
    else .error representation
  | _ => .error representation

def freeze (ids : List Json) (role content : Json) : Except Failure FrozenFragment :=
  match intKeys ids with
  | none => .error (.projectionConflict "invalid fragment event identifiers")
  | some keys =>
    if hpos : ∀ id ∈ keys, 0 < id then
      if hnd : keys.Nodup then do
        let m ← frozenMessage role content
        return ⟨keys, m.1, hpos, hnd, m.2.1, m.2.2⟩
      else .error (.projectionConflict "duplicate frozen event")
    else .error (.projectionConflict "invalid fragment event identifiers")

/-- `_freeze` of a fragment of the renderer. -/
def freezeEvent (fragment : EventFragment) : Except Failure FrozenFragment :=
  freeze (fragment.1.map .int) (.str fragment.2.role) (strOrNull fragment.2.content)

/-- `set(d) == names`. -/
def hasKeys (d : Dict String Json) (names : List String) : Bool :=
  d.all (fun field => names.contains field.1) && names.all fun name => (d.lookup name).isSome

def field (d : Dict String Json) (name : String) : Json :=
  (d.lookup name).getD .null

/-- One item of a stored block. -/
def loadItem (item : Dict String Json) : Except Failure FrozenFragment :=
  if hasKeys item ["kind", "event_ids", "message"] then
    if field item "kind" = .str "model_input" then
      match field item "event_ids" with
      | .arr ids =>
        match field item "message" with
        | .obj message =>
          if hasKeys message ["role", "content"] then
            freeze ids (field message "role") (field message "content")
          else .error representation
        | _ => .error representation
      | _ => .error (.projectionConflict "invalid fragment event identifiers")
    else .error (.projectionConflict "fragment is not a model input")
  else .error (.projectionConflict "unsupported frozen fragment schema")

namespace FrozenFragments

def len (frozen : FrozenFragments) : Nat :=
  match frozen.tail with
  | chunk :: _ => chunk.count
  | [] => 0

def characterCount (frozen : FrozenFragments) : Nat :=
  match frozen.tail with
  | chunk :: _ => chunk.characters
  | [] => 0

def firstEventId (frozen : FrozenFragments) : Option Int :=
  match frozen.tail with
  | chunk :: _ => chunk.firstEventId
  | [] => none

def iterBlocks (frozen : FrozenFragments) : List (List FrozenFragment) :=
  (frozen.tail.map (·.fragments)).reverse

def iterFragments (frozen : FrozenFragments) : List FrozenFragment :=
  frozen.iterBlocks.flatten

/-- The blocks met on the way from a chunk down to the chunk of an identity. -/
def blocksAbove (anchor : Option Nat) : List Chunk → Option (List (List FrozenFragment))
  | [] => if anchor = none then some [] else none
  | chunk :: rest =>
    if anchor = some chunk.ident then some []
    else (blocksAbove anchor rest).map (chunk.fragments :: ·)

def tailIdent (frozen : FrozenFragments) : Option Nat :=
  frozen.tail.head?.map (·.ident)

/-- Only the new chunks of this exact structural ancestor. -/
def deltaFrom (frozen ancestor : FrozenFragments) : Except Failure (List (List FrozenFragment)) :=
  if frozen.owner ≠ ancestor.owner then
    .error (.projectionConflict "frozen input has a different owner")
  else
    match blocksAbove ancestor.tailIdent frozen.tail with
    | some blocks => .ok blocks.reverse
    | none => .error (.projectionConflict "frozen input is not an extension of the prefix")

def root (owner : Nat) : FrozenFragments :=
  ⟨[], .nil, owner⟩

def attach (frozen : FrozenFragments) (fragments : List FrozenFragment) (ids : AvlTree Int)
    (ident : Nat) : FrozenFragments :=
  if fragments = [] then frozen
  else
    { tail :=
        { ident := ident
          fragments := fragments
          count := frozen.len + fragments.length
          characters := frozen.characterCount + (fragments.map (·.characters)).sum
          firstEventId := (frozen.firstEventId.filter (· ≠ 0)).or
            (fragments.findSome? fun fragment => fragment.eventIds.head?) } :: frozen.tail
      ids := ids
      owner := frozen.owner }

/-- Identifiers enter one by one; one that leaves the size as it was is a duplicate. -/
def insertIds (ids : AvlTree Int) : List Int → Except Failure (AvlTree Int)
  | [] => .ok ids
  | id :: rest =>
    if ids ≠ .nil ∧ (ids.insert id).size = ids.size then
      .error (.projectionConflict "duplicate frozen event")
    else insertIds (ids.insert id) rest

def append (frozen : FrozenFragments) (fragments : List FrozenFragment) (ident : Nat) :
    Except Failure FrozenFragments :=
  if fragments = [] then .ok frozen
  else do
    let ids ← insertIds frozen.ids (fragments.flatMap (·.eventIds))
    return frozen.attach fragments ids ident

/-- Every block that is attached takes the next identity. -/
def extendBlocks (frozen : FrozenFragments) (ident : Nat) :
    List (List FrozenFragment) → Except Failure FrozenFragments
  | [] => .ok frozen
  | block :: blocks => do
    let next ← frozen.append block ident
    next.extendBlocks (ident + 1) blocks

def load (items : List (Dict String Json)) (ident : Nat) : Except Failure FrozenFragments := do
  let fragments ← items.mapM loadItem
  (root ident).append fragments ident

def fromBlocks (blocks : List (List FrozenFragment)) (ident : Nat) :
    Except Failure FrozenFragments :=
  (root ident).extendBlocks ident blocks

/-- The order in which a set hands out its members. -/
structure SetOrder where
  iter : List Int → List Int
  perm : ∀ members : List Int, (iter members).Perm members

/-- `covered | fresh`. -/
def union (order : SetOrder) (covered : AvlTree Int) (fresh : List Int) : AvlTree Int :=
  (order.iter fresh).foldl (fun root value => root.insert value) covered

/-- What the loop over the groups carries: the index is built at the first split. -/
structure Split where
  covered : AvlTree Int
  additions : List FrozenFragment
  index : Option (CoverIndex Int)

def take (order : SetOrder) (state : Split) (fresh : List Int) (selected : List EventFragment) :
    Except Failure Split :=
  let selectedIds := selected.flatMap (·.1)
  if (∀ key ∈ selectedIds, key ∈ fresh) ∧ (∀ key ∈ fresh, key ∈ selectedIds) ∧
      selectedIds.length = fresh.length then do
    let additions ← selected.mapM freezeEvent
    return { state with
      covered := union order state.covered fresh
      additions := state.additions ++ additions }
  else .error (.projectionConflict "new event fragment coverage is incomplete")

def splitGroup (order : SetOrder) (individual : List EventFragment) (state : Split)
    (group : EventFragment) : Except Failure Split :=
  let fresh := (group.1.filter fun key => !state.covered.contains key).dedup
  if fresh = [] then .ok state
  else if fresh.length = group.1.dedup.length then take order state fresh [group]
  else
    let index := state.index.getD (CoverIndex.build (·.1) individual)
    take order { state with index := some index } fresh
      (CoverIndex.select (·.1) individual index group.1 fun key => decide (key ∈ fresh))

def extendHistory (order : SetOrder) (frozen : FrozenFragments)
    (grouped individual : List EventFragment) (ident : Nat) : Except Failure FrozenFragments := do
  let state ← grouped.foldlM (splitGroup order individual) ⟨frozen.ids, [], none⟩
  return frozen.attach state.additions state.covered ident

def appendCurrent (frozen : FrozenFragments) (eventId : Int) (message : Compaction.ChatMessage)
    (ident : Nat) : Except Failure FrozenFragments :=
  if frozen.ids.contains eventId then
    .error (.projectionConflict "trigger already exists in frozen input")
  else do
    let fragment ← freezeEvent ([eventId], message)
    frozen.append [fragment] ident

end FrozenFragments

end Yuki.Frozen

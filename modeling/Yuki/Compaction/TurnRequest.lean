import Mathlib.Data.List.Induction
import Yuki.Compaction.Transcript

/-! The request of a turn: the messages before the first checkpoint, the latest
checkpoint, and the records after it. -/

namespace Yuki.Compaction

/-- An entry that is no checkpoint. -/
inductive Record
  | message (m : ChatMessage)
  | output (o : FunctionCallOutput)
deriving DecidableEq

namespace Entry

def message? : Entry → Option ChatMessage
  | .message m => some m
  | _ => none

def continuation? : Entry → Option ProviderContinuation
  | .continuation c => some c
  | _ => none

def record? : Entry → Option Record
  | .message m => some (.message m)
  | .output o => some (.output o)
  | .continuation _ => none

end Entry

def Record.entry : Record → Entry
  | .message m => .message m
  | .output o => .output o

structure TranscriptRequest where
  messages : List ChatMessage
  continuation : Option ProviderContinuation
  items : List Record
deriving DecidableEq

/-- The positions of the checkpoints. -/
def checkpoints (entries : List Entry) : List Nat :=
  (entries.zipIdx.filter fun entry => entry.1.continuation?.isSome).map (·.2)

/-- `TurnTranscript.continuation`. -/
def latestContinuation (entries : List Entry) : Option ProviderContinuation :=
  entries.reverse.findSome? Entry.continuation?

/-- `TurnTranscript.request`. -/
def request (entries : List Entry) : TranscriptRequest :=
  match checkpoints entries with
  | [] => ⟨entries.filterMap Entry.message?, none, []⟩
  | first :: rest =>
    { messages := (entries.take first).filterMap Entry.message?
      continuation := latestContinuation entries
      items := (entries.drop ((first :: rest).getLast (List.cons_ne_nil _ _) + 1)).filterMap
        Entry.record? }

variable {entries : List Entry}

theorem checkpoints_snoc (entries : List Entry) (e : Entry) :
    checkpoints (entries ++ [e]) = checkpoints entries ++
      if e.continuation?.isSome then [entries.length] else [] := by
  unfold checkpoints
  rw [List.zipIdx_append, List.filter_append, List.map_append]
  congr 1
  by_cases he : e.continuation?.isSome
  · simp [he]
  · simp [he]

theorem lt_of_mem_checkpoints {i : Nat} (h : i ∈ checkpoints entries) : i < entries.length := by
  obtain ⟨entry, hentry, rfl⟩ := List.mem_map.mp h
  obtain ⟨hmem, -⟩ := List.mem_filter.mp hentry
  have := List.mem_zipIdx hmem
  omega

theorem latestContinuation_snoc (entries : List Entry) (e : Entry) :
    latestContinuation (entries ++ [e]) = e.continuation?.or (latestContinuation entries) := by
  unfold latestContinuation
  rw [List.reverse_append, List.reverse_singleton, List.singleton_append, List.findSome?_cons]
  cases e.continuation? <;> rfl

theorem checkpoints_eq_nil_iff : checkpoints entries = [] ↔ latestContinuation entries = none := by
  induction entries using List.reverseRecOn with
  | nil => exact ⟨fun _ => rfl, fun _ => rfl⟩
  | append_singleton entries e ih =>
    rw [checkpoints_snoc, latestContinuation_snoc, List.append_eq_nil_iff, ih]
    cases e.continuation? <;> simp

theorem request_continuation (entries : List Entry) :
    (request entries).continuation = latestContinuation entries := by
  unfold request
  split
  · rename_i h
    exact (checkpoints_eq_nil_iff.mp h).symm
  · rfl

/-- A checkpoint takes the place of the one before and of the records after that one. -/
theorem request_snoc_continuation (entries : List Entry) (c : ProviderContinuation) :
    request (entries ++ [.continuation c]) =
      { request entries with continuation := some c, items := [] } := by
  have hsnoc : checkpoints (entries ++ [.continuation c]) =
      checkpoints entries ++ [entries.length] := checkpoints_snoc entries _
  have hlatest : latestContinuation (entries ++ [.continuation c]) = some c :=
    latestContinuation_snoc entries _
  unfold request
  cases hc : checkpoints entries with
  | nil =>
    rw [hsnoc, hc]
    simp [hlatest]
  | cons first rest =>
    have hfirst : first ≤ entries.length :=
      Nat.le_of_lt (lt_of_mem_checkpoints (hc ▸ List.mem_cons_self))
    rw [hsnoc, hc]
    simp [hlatest, List.take_append_of_le_length hfirst]

/-- A record joins the messages before the first checkpoint, or the records after the latest. -/
theorem request_snoc_record (entries : List Entry) (r : Record) :
    request (entries ++ [r.entry]) =
      if (request entries).continuation = none then
        { request entries with messages := (request entries).messages ++ r.entry.message?.toList }
      else { request entries with items := (request entries).items ++ [r] } := by
  have hnone : r.entry.continuation? = none := by cases r <;> rfl
  have hrecord : r.entry.record? = some r := by cases r <;> rfl
  have hsnoc : checkpoints (entries ++ [r.entry]) = checkpoints entries := by
    rw [checkpoints_snoc, hnone]
    simp
  have hlatest : latestContinuation (entries ++ [r.entry]) = latestContinuation entries := by
    rw [latestContinuation_snoc, hnone]
    rfl
  rw [request_continuation]
  unfold request
  rw [hsnoc]
  cases hc : checkpoints entries with
  | nil =>
    rw [if_pos (checkpoints_eq_nil_iff.mp hc)]
    cases r <;> simp [List.filterMap_append, Record.entry, Entry.message?]
  | cons first rest =>
    have hsome : latestContinuation entries ≠ none := fun h => by
      rw [checkpoints_eq_nil_iff.mpr h] at hc
      cases hc
    have hfirst : first ≤ entries.length :=
      Nat.le_of_lt (lt_of_mem_checkpoints (hc ▸ List.mem_cons_self))
    have hlast : (first :: rest).getLast (List.cons_ne_nil _ _) + 1 ≤ entries.length := by
      refine lt_of_mem_checkpoints ?_
      rw [hc]
      exact List.getLast_mem _
    rw [if_neg hsome]
    dsimp only
    rw [List.take_append_of_le_length hfirst, List.drop_append_of_le_length hlast,
      List.filterMap_append, hlatest]
    simp [hrecord]

end Yuki.Compaction

import Yuki.Compaction.TurnRequest

/-! The journal of a turn while it is written. What later appends do is decided
by the request it makes: two transcripts with one request go on alike. -/

namespace Yuki.Compaction

structure TurnTranscript where
  chainId : String
  entries : List Entry
deriving DecidableEq

/-- `LLMInvalidRequestError("continuation contract changed within a turn")`. -/
inductive TurnError
  | contractChanged
deriving DecidableEq

/-- What a turn does to its transcript. -/
inductive TurnOp
  | append (message : ChatMessage)
  | appendResult (callId result : String)
  | accept (continuation : ProviderContinuation)
deriving DecidableEq

namespace TurnTranscript

def push (t : TurnTranscript) (e : Entry) : TurnTranscript :=
  { t with entries := t.entries ++ [e] }

def continuation (t : TurnTranscript) : Option ProviderContinuation :=
  latestContinuation t.entries

def append (t : TurnTranscript) (message : ChatMessage) : TurnTranscript :=
  t.push (.message message)

def accept (t : TurnTranscript) (c : ProviderContinuation) : Except TurnError TurnTranscript :=
  if t.continuation.any fun previous =>
      (previous.protocol, previous.profileId) != (c.protocol, c.profileId) then
    .error .contractChanged
  else .ok (t.push (.continuation c))

def appendResult (t : TurnTranscript) (callId result : String) : TurnTranscript :=
  if t.continuation.isNone then
    t.append { role := "tool", content := some result, toolCallId := some callId }
  else t.push (.output ⟨callId, result⟩)

def perform (t : TurnTranscript) : TurnOp → Except TurnError TurnTranscript
  | .append message => .ok (t.append message)
  | .appendResult callId result => .ok (t.appendResult callId result)
  | .accept c => t.accept c

/-- A run that ends at the first exception. -/
def run (t : TurnTranscript) (ops : List TurnOp) : Except TurnError TurnTranscript :=
  ops.foldlM perform t

def request (t : TurnTranscript) : TranscriptRequest :=
  Compaction.request t.entries

end TurnTranscript

/-! The same on requests alone. -/

namespace TranscriptRequest

def record (q : TranscriptRequest) (r : Record) : TranscriptRequest :=
  if q.continuation = none then { q with messages := q.messages ++ r.entry.message?.toList }
  else { q with items := q.items ++ [r] }

/-- What an operation makes of the request. -/
def perform (q : TranscriptRequest) : TurnOp → Except TurnError TranscriptRequest
  | .append message => .ok (q.record (.message message))
  | .appendResult callId result => .ok <|
    if q.continuation.isNone then
      q.record (.message { role := "tool", content := some result, toolCallId := some callId })
    else q.record (.output ⟨callId, result⟩)
  | .accept c =>
    if q.continuation.any fun previous =>
        (previous.protocol, previous.profileId) != (c.protocol, c.profileId) then
      .error .contractChanged
    else .ok { q with continuation := some c, items := [] }

def run (q : TranscriptRequest) (ops : List TurnOp) : Except TurnError TranscriptRequest :=
  ops.foldlM perform q

end TranscriptRequest

namespace TurnTranscript

theorem continuation_eq (t : TurnTranscript) : t.continuation = t.request.continuation :=
  (request_continuation t.entries).symm

theorem request_push_record (t : TurnTranscript) (r : Record) :
    (t.push r.entry).request = t.request.record r :=
  request_snoc_record t.entries r

theorem request_perform (t : TurnTranscript) (op : TurnOp) :
    (t.perform op).map request = t.request.perform op := by
  cases op with
  | append message => exact congrArg Except.ok (request_push_record t (.message message))
  | appendResult callId result =>
    refine congrArg Except.ok ?_
    unfold appendResult
    rw [continuation_eq]
    split
    · exact request_push_record t (.message _)
    · exact request_push_record t (.output _)
  | accept c =>
    unfold perform accept TranscriptRequest.perform
    dsimp only
    rw [continuation_eq]
    split
    · rfl
    · exact congrArg Except.ok (request_snoc_continuation t.entries c)

theorem request_run (t : TurnTranscript) (ops : List TurnOp) :
    (t.run ops).map request = t.request.run ops := by
  induction ops generalizing t with
  | nil => rfl
  | cons op ops ih =>
    have hstep := request_perform t op
    unfold run TranscriptRequest.run
    rw [List.foldlM_cons, List.foldlM_cons, ← hstep]
    cases hop : t.perform op with
    | error e => rfl
    | ok t' => exact ih t'

/-- Transcripts that make one request make one request after every further run, and the same
operation fails in both. -/
theorem run_alike {t u : TurnTranscript} (h : t.request = u.request) (ops : List TurnOp) :
    (t.run ops).map request = (u.run ops).map request := by
  rw [request_run, request_run, h]

/-- A transcript that holds no more than its request. -/
def ofRequest (chainId : String) (q : TranscriptRequest) : TurnTranscript where
  chainId
  entries := q.messages.map .message ++ q.continuation.toList.map .continuation ++
    q.items.map Record.entry

theorem request_messages (messages : List ChatMessage) :
    Compaction.request (messages.map .message) = ⟨messages, none, []⟩ := by
  induction messages using List.reverseRecOn with
  | nil => rfl
  | append_singleton messages m ih =>
    rw [List.map_append, List.map_singleton]
    refine (request_snoc_record _ (.message m)).trans ?_
    rw [ih]
    rfl

theorem request_append_records {entries : List Entry} (rs : List Record)
    (h : (Compaction.request entries).continuation ≠ none) :
    Compaction.request (entries ++ rs.map Record.entry) =
      { Compaction.request entries with items := (Compaction.request entries).items ++ rs } := by
  induction rs using List.reverseRecOn with
  | nil => simp
  | append_singleton rs r ih =>
    rw [List.map_append, ← List.append_assoc, List.map_singleton, request_snoc_record, ih,
      if_neg h, List.append_assoc]

/-- Without a checkpoint nothing follows the messages. -/
theorem items_of_continuation_none (t : TurnTranscript) (h : t.request.continuation = none) :
    t.request.items = [] := by
  rw [request, request_continuation] at h
  unfold request Compaction.request
  rw [checkpoints_eq_nil_iff.mpr h]

theorem request_ofRequest (chainId : String) {q : TranscriptRequest}
    (h : q.continuation = none → q.items = []) : (ofRequest chainId q).request = q := by
  obtain ⟨messages, continuation, items⟩ := q
  unfold request ofRequest
  cases continuation with
  | none =>
    obtain rfl : items = [] := h rfl
    simpa using request_messages messages
  | some c =>
    have hcheckpoint : Compaction.request (messages.map .message ++ [.continuation c]) =
        ⟨messages, some c, []⟩ := by
      rw [request_snoc_continuation, request_messages]
    have hsome : (Compaction.request (messages.map .message ++ [.continuation c])).continuation ≠
        none := by
      rw [hcheckpoint]
      exact Option.some_ne_none c
    refine (request_append_records items hsome).trans ?_
    rw [hcheckpoint]
    rfl

end TurnTranscript

end Yuki.Compaction

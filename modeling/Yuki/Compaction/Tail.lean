import Mathlib.Data.List.Pairwise
import Yuki.Compaction.Transcript

/-! The portable tail of a transcript: each tool round becomes one message that
remembers the entry its round began at. -/

namespace Yuki.Compaction

structure RetainedItem where
  start : Nat
  message : ChatMessage
  requiredFrom : Option Nat
deriving DecidableEq

/-- What the conversion is given beside the entries: the recorded responses by
entry, the entry of the last response, and the boundary of what must be kept. -/
structure TailInput where
  recorded : Dict Nat ChatMessage
  lastResponse : Option Nat
  callKey : Option (String → Option String)
  keepFrom : Nat

structure TailState where
  result : List RetainedItem := []
  results : Dict String String := []
  response : Option ChatMessage := none
  responseStart : Option Nat := none
  resultsStart : Option Nat := none
deriving DecidableEq

namespace TailInput

variable (t : TailInput)

def item (start : Nat) (message : ChatMessage) : RetainedItem where
  start := start
  message := message
  requiredFrom := if t.keepFrom ≤ start then some t.keepFrom else none

/-- `call_key if response is last_response else None`, a response being known by its entry. -/
def keyAt (start : Option Nat) : Option (String → Option String) :=
  if start = t.lastResponse then t.callKey else none

def flushRound (s : TailState) : Except TailError TailState :=
  if s.results ≠ [] then do
    let message ← toolResultEvidence s.response s.results (t.keyAt s.responseStart)
    let start ← expect (if s.response.isSome then s.responseStart else s.resultsStart)
      .assertionError
    return { result := s.result ++ [t.item start message] }
  else match s.response with
    | some response =>
      if truthy response.content then do
        let start ← expect s.responseStart .assertionError
        return { result := s.result ++ [t.item start { response with reasoningContent := none }] }
      else return { s with response := none, responseStart := none }
    | none => return { s with response := none, responseStart := none }

def addResult (index : Nat) (id output : String) (s : TailState) : TailState :=
  { s with
    results := s.results.set id output
    resultsStart := some (s.resultsStart.getD index) }

def tailStep (index : Nat) (entry : Entry) (s : TailState) : Except TailError TailState :=
  match entry with
  | .continuation _ => do
    let s ← t.flushRound s
    return { s with response := t.recorded.lookup index, responseStart := some index }
  | .output o => return addResult index o.callId o.output s
  | .message m =>
    if truthy m.toolCallId then return addResult index (m.toolCallId.getD "") (m.content.getD "") s
    else if m.toolCalls ≠ [] then return { s with response := some m, responseStart := some index }
    else do
      let s ← t.flushRound s
      return { s with result := s.result ++ [t.item index { m with reasoningContent := none }] }

def tailLoop : Nat → List Entry → TailState → Except TailError TailState
  | _, [], s => .ok s
  | index, entry :: entries, s => do
    let s ← t.tailStep index entry s
    tailLoop (index + 1) entries s

/-- `_native_tail_items`. -/
def nativeTailItems (offset : Nat) (entries : List Entry) : Except TailError (List RetainedItem) := do
  let s ← t.tailLoop offset entries {}
  let s ← t.flushRound s
  return s.result

end TailInput

/-! What an entry is to the rounds. -/

inductive Kind
  /-- A provider's continuation, with its recorded response. -/
  | opened (response : Option ChatMessage)
  /-- An assistant message with tool calls. -/
  | called (response : ChatMessage)
  | answered (id output : String)
  | plain (m : ChatMessage)
deriving DecidableEq

namespace Kind

def response? : Kind → Option ChatMessage
  | opened r => r
  | called r => some r
  | _ => none

def callIds (k : Kind) : List String :=
  match k.response? with
  | some r => r.toolCalls.map (·.id)
  | none => []

def isAnswer : Kind → Bool
  | answered _ _ => true
  | _ => false

/-- The calls that wait for their answer after the entry. -/
def pendingAfter (pending : List String) : Kind → List String
  | answered id _ => pending.erase id
  | plain _ => pending
  | k => k.callIds

/-- An answer is for a waiting call, and a response comes when no call waits. -/
def Pairs (pending : List String) : Kind → Prop
  | answered id _ => id ∈ pending
  | plain _ => True
  | _ => pending = []

/-- The entry leaves the round before it closed. -/
def Closes (afterResult : Bool) (pending : List String) : Kind → Prop
  | called _ => afterResult = false
  | plain _ => pending = []
  | _ => True

end Kind

namespace TailInput

variable (t : TailInput)

def kindOf (index : Nat) : Entry → Kind
  | .continuation _ => .opened (t.recorded.lookup index)
  | .output o => .answered o.callId o.output
  | .message m =>
    if truthy m.toolCallId then .answered (m.toolCallId.getD "") (m.content.getD "")
    else if m.toolCalls ≠ [] then .called m
    else .plain m

def kinds : Nat → List Entry → List Kind
  | _, [] => []
  | index, entry :: entries => t.kindOf index entry :: kinds (index + 1) entries

end TailInput

/-- Every call is answered once, after its response and before the next one;
`pending` are the calls of the current response that wait for their answer. -/
def Paired : List String → List Kind → Prop
  | pending, [] => pending = []
  | pending, k :: ks => k.Pairs pending ∧ Paired (k.pendingAfter pending) ks

/-- No assistant message with tool calls comes directly after a tool result, and
no plain message while a call of the current response waits for its answer. -/
def RoundsClosed : Bool → List String → List Kind → Prop
  | _, _, [] => True
  | afterResult, pending, k :: ks =>
    k.Closes afterResult pending ∧ RoundsClosed k.isAnswer (k.pendingAfter pending) ks

instance (pending : List String) : (k : Kind) → Decidable (k.Pairs pending)
  | .answered id _ => inferInstanceAs (Decidable (id ∈ pending))
  | .plain _ => inferInstanceAs (Decidable True)
  | .opened _ => inferInstanceAs (Decidable (pending = []))
  | .called _ => inferInstanceAs (Decidable (pending = []))

instance (afterResult : Bool) (pending : List String) :
    (k : Kind) → Decidable (k.Closes afterResult pending)
  | .called _ => inferInstanceAs (Decidable (afterResult = false))
  | .plain _ => inferInstanceAs (Decidable (pending = []))
  | .opened _ => inferInstanceAs (Decidable True)
  | .answered _ _ => inferInstanceAs (Decidable True)

instance decidablePaired : (pending : List String) → (ks : List Kind) → Decidable (Paired pending ks)
  | pending, [] => inferInstanceAs (Decidable (pending = []))
  | pending, k :: ks =>
    have := decidablePaired (k.pendingAfter pending) ks
    inferInstanceAs (Decidable (_ ∧ _))

instance decidableRoundsClosed : (afterResult : Bool) → (pending : List String) → (ks : List Kind) →
    Decidable (RoundsClosed afterResult pending ks)
  | _, _, [] => inferInstanceAs (Decidable True)
  | _, pending, k :: ks =>
    have := decidableRoundsClosed k.isAnswer (k.pendingAfter pending) ks
    inferInstanceAs (Decidable (_ ∧ _))

/-- The entry at an index, for a list that begins at `offset`. -/
def kindAt (offset : Nat) (ks : List Kind) (k : Nat) : Option Kind :=
  if offset ≤ k then ks[k - offset]? else none

/-- The message holds every call of the response with the output recorded for it. -/
def RoundOf (t : TailInput) (at? : Nat → Option Kind) (i : Nat) (r m : ChatMessage) : Prop :=
  ∃ out : String → String,
    (∀ call ∈ r.toolCalls, ∃ k, at? k = some (.answered call.id (out call.id))) ∧
    m = evidenceMessage r.content
      (r.toolCalls.map fun call => callEntry (t.keyAt (some i)) call (out call.id))

/-- An item is the round of the response at its start, or the message there itself. -/
def ItemAt (t : TailInput) (at? : Nat → Option Kind) (item : RetainedItem) : Prop :=
  (∃ k r, at? item.start = some k ∧ k.response? = some r ∧ r.toolCalls ≠ [] ∧
    RoundOf t at? item.start r item.message) ∨
  (∃ k m, at? item.start = some k ∧ (k = .plain m ∨ k.response? = some m ∧ m.toolCalls = []) ∧
    item.message = { m with reasoningContent := none })

/-- Every pair of call and output is in the message of its own response and in no
other, and the messages stand in the order of the responses. -/
structure KeepsResults (t : TailInput) (at? : Nat → Option Kind) (items : List RetainedItem) :
    Prop where
  ordered : items.Pairwise fun a b => a.start < b.start
  rounds : ∀ i k r, at? i = some k → k.response? = some r → r.toolCalls ≠ [] →
    ∃ item ∈ items, item.start = i ∧ RoundOf t at? i r item.message
  items : ∀ item ∈ items, ItemAt t at? item

/-! A run over closed rounds. -/

section Rounds

variable {t : TailInput} {at? : Nat → Option Kind}

/-- The round of `r`, begun at entry `i` and not yet written. -/
structure OpenRound (at? : Nat → Option Kind) (n i : Nat) (r : ChatMessage) (pending : List String)
    (s : TailState) : Prop where
  lt : i < n
  source : ∃ k, at? i = some k ∧ k.response? = some r
  last : ∀ item ∈ s.result, item.start < i
  pending : ∀ id, id ∈ pending ↔ id ∈ r.toolCalls.map (·.id) ∧ s.results.lookup id = none
  answers : ∀ id out, s.results.lookup id = some out →
    id ∈ r.toolCalls.map (·.id) ∧ ∃ k, at? k = some (.answered id out)
  resultsStart : ∀ k, s.resultsStart = some k → i < k

/-- Before entry `n` every earlier round is written, or it is the open one. -/
structure TailInv (t : TailInput) (at? : Nat → Option Kind) (n : Nat) (afterResult : Bool)
    (pending : List String) (s : TailState) : Prop where
  sorted : s.result.Pairwise fun a b => a.start < b.start
  below : ∀ item ∈ s.result, item.start < n
  made : ∀ item ∈ s.result, ItemAt t at? item
  covered : ∀ i k r, i < n → at? i = some k → k.response? = some r → r.toolCalls ≠ [] →
    (∃ item ∈ s.result, item.start = i ∧ RoundOf t at? i r item.message) ∨
      (s.response = some r ∧ s.responseStart = some i)
  nodup : pending.Nodup
  idle : s.response = none → s.results = [] ∧ pending = []
  current : ∀ r, s.response = some r →
    ∃ i, s.responseStart = some i ∧ OpenRound at? n i r pending s
  afterResult : afterResult = true ↔ s.results ≠ []
  resultsStart : s.results = [] → s.resultsStart = none

theorem tailInv_init {n : Nat} (hat : ∀ i, i < n → at? i = none) :
    TailInv t at? n false [] {} where
  sorted := List.Pairwise.nil
  below := by simp
  made := by simp
  covered := by
    intro i k r hi hk
    rw [hat i hi] at hk
    simp at hk
  nodup := List.nodup_nil
  idle := by simp
  current := by simp
  afterResult := by simp
  resultsStart := by simp

theorem lookup_ne_nil {d : Dict String String} {id out : String} (h : d.lookup id = some out) :
    d ≠ [] := by
  rintro rfl
  simp at h

theorem exists_lookup_of_ne_nil {d : Dict String String} (h : d ≠ []) :
    ∃ id out, d.lookup id = some out := by
  obtain _ | ⟨⟨id, out⟩, d⟩ := d
  · exact absurd rfl h
  · exact ⟨id, out, by simp⟩

/-- An answered round is written as the evidence of its response. -/
theorem toolResultEvidence_roundOf {n i : Nat} {r : ChatMessage} {s : TailState}
    (h : OpenRound at? n i r [] s) :
    ∃ m, toolResultEvidence (some r) s.results (t.keyAt (some i)) = .ok m ∧ RoundOf t at? i r m := by
  have hans : ∀ call ∈ r.toolCalls,
      s.results.lookup call.id = some ((s.results.lookup call.id).getD "") := by
    intro call hc
    cases hl : s.results.lookup call.id with
    | some out => rfl
    | none =>
      have hm := (h.pending call.id).2 ⟨List.mem_map_of_mem hc, hl⟩
      simp at hm
  have hentries := callEntries_eq_ok (t.keyAt (some i))
    (fun id => (s.results.lookup id).getD "") hans
  refine ⟨evidenceMessage r.content (r.toolCalls.map fun call =>
    callEntry (t.keyAt (some i)) call ((s.results.lookup call.id).getD "")),
    by simp [toolResultEvidence, hentries, ok_bind, pure, Except.pure],
    fun id => (s.results.lookup id).getD "", ?_, rfl⟩
  intro call hc
  exact (h.answers _ _ (hans call hc)).2

/-- The item of the open round is written. -/
theorem tailInv_written {n i : Nat} {afterResult : Bool} {pending : List String} {s : TailState}
    {r : ChatMessage} {item : RetainedItem} (h : TailInv t at? n afterResult pending s)
    (hr : s.response = some r) (hstart : s.responseStart = some i)
    (hopen : OpenRound at? n i r pending s) (hi : item.start = i) (hitem : ItemAt t at? item)
    (hround : r.toolCalls ≠ [] → RoundOf t at? i r item.message) :
    TailInv t at? n false [] { result := s.result ++ [item] } where
  sorted := by
    rw [List.pairwise_append]
    refine ⟨h.sorted, by simp, ?_⟩
    intro a ha b hb
    obtain rfl := List.mem_singleton.1 hb
    rw [hi]
    exact hopen.last a ha
  below := by
    intro a ha
    obtain ha | ha := List.mem_append.1 ha
    · exact h.below a ha
    · obtain rfl := List.mem_singleton.1 ha
      rw [hi]
      exact hopen.lt
  made := by
    intro a ha
    obtain ha | ha := List.mem_append.1 ha
    · exact h.made a ha
    · obtain rfl := List.mem_singleton.1 ha
      exact hitem
  covered := by
    intro j k r' hj hk hkr hc
    obtain ⟨a, ha, hw⟩ | ⟨hs, hj'⟩ := h.covered j k r' hj hk hkr hc
    · exact .inl ⟨a, List.mem_append_left _ ha, hw⟩
    · rw [hr] at hs
      rw [hstart] at hj'
      obtain rfl := Option.some.inj hs
      obtain rfl := Option.some.inj hj'
      exact .inl ⟨item, by simp, hi, hround hc⟩
  nodup := List.nodup_nil
  idle := by simp
  current := by simp
  afterResult := by simp
  resultsStart := by simp

/-- A response without calls is left without an item. -/
theorem tailInv_skipped {n : Nat} {afterResult : Bool} {pending : List String} {s : TailState}
    (h : TailInv t at? n afterResult pending s) (hres : s.results = [])
    (hcalls : ∀ r, s.response = some r → r.toolCalls = []) :
    TailInv t at? n false [] { s with response := none, responseStart := none } where
  sorted := h.sorted
  below := h.below
  made := h.made
  covered := by
    intro i k r hi hk hkr hc
    obtain hw | ⟨hs, -⟩ := h.covered i k r hi hk hkr hc
    · exact .inl hw
    · exact absurd (hcalls r hs) hc
  nodup := List.nodup_nil
  idle := fun _ => ⟨hres, rfl⟩
  current := by simp
  afterResult := by simp [hres]
  resultsStart := h.resultsStart

theorem calls_of_results {n i : Nat} {r : ChatMessage} {pending : List String} {s : TailState}
    (h : OpenRound at? n i r pending s) (hres : s.results ≠ []) : r.toolCalls ≠ [] := by
  obtain ⟨id, out, hl⟩ := exists_lookup_of_ne_nil hres
  intro hnil
  have hid := (h.answers id out hl).1
  simp [hnil] at hid

theorem no_calls_of_no_results {n i : Nat} {r : ChatMessage} {s : TailState}
    (h : OpenRound at? n i r [] s) (hres : s.results = []) : r.toolCalls = [] := by
  by_contra hne
  obtain ⟨call, hc⟩ := List.exists_mem_of_ne_nil _ hne
  have hm := (h.pending call.id).2 ⟨List.mem_map_of_mem hc, by simp [hres]⟩
  simp at hm

theorem flushRound_closed {n : Nat} {afterResult : Bool} {s : TailState}
    (h : TailInv t at? n afterResult [] s) :
    ∃ s', t.flushRound s = .ok s' ∧ TailInv t at? n false [] s' ∧ s'.response = none := by
  cases hr : s.response with
  | none =>
    obtain ⟨hres, -⟩ := h.idle hr
    refine ⟨{ s with response := none, responseStart := none }, ?_,
      tailInv_skipped h hres (by simp [hr]), rfl⟩
    simp [TailInput.flushRound, hres, hr, pure, Except.pure]
  | some r =>
    obtain ⟨i, hstart, hopen⟩ := h.current r hr
    obtain ⟨k, hk, hkr⟩ := hopen.source
    by_cases hres : s.results = []
    · have hcalls := no_calls_of_no_results hopen hres
      by_cases ht : truthy r.content = true
      · refine ⟨{ result := s.result ++ [t.item i { r with reasoningContent := none }] }, ?_,
          tailInv_written h hr hstart hopen rfl ?_ (fun hc => absurd hcalls hc), rfl⟩
        · simp [TailInput.flushRound, hres, hr, ht, hstart, expect, ok_bind, pure, Except.pure]
        · exact .inr ⟨k, r, hk, .inr ⟨hkr, hcalls⟩, rfl⟩
      · refine ⟨{ s with response := none, responseStart := none }, ?_,
          tailInv_skipped h hres (by simpa [hr] using hcalls), rfl⟩
        simp [TailInput.flushRound, hres, hr, ht, pure, Except.pure]
    · obtain ⟨m, hm, hround⟩ := toolResultEvidence_roundOf (t := t) hopen
      refine ⟨{ result := s.result ++ [t.item i m] }, ?_,
        tailInv_written h hr hstart hopen rfl ?_ (fun _ => hround), rfl⟩
      · simp [TailInput.flushRound, hres, hr, hm, hstart, expect, ok_bind, pure, Except.pure]
      · exact .inl ⟨k, r, hk, hkr, calls_of_results hopen hres, hround⟩

theorem tailStep_eq (index : Nat) (entry : Entry) (s : TailState) :
    t.tailStep index entry s =
      match t.kindOf index entry with
      | .opened r => do
        let s ← t.flushRound s
        return { s with response := r, responseStart := some index }
      | .called r => .ok { s with response := some r, responseStart := some index }
      | .answered id out => .ok (TailInput.addResult index id out s)
      | .plain m => do
        let s ← t.flushRound s
        return { s with result := s.result ++ [t.item index { m with reasoningContent := none }] } := by
  cases entry with
  | continuation c => rfl
  | output o => rfl
  | message m =>
    by_cases ht : truthy m.toolCallId = true
    · simp [TailInput.tailStep, TailInput.kindOf, ht, pure, Except.pure]
    · by_cases hc : m.toolCalls = []
      · simp [TailInput.tailStep, TailInput.kindOf, ht, hc]
      · simp [TailInput.tailStep, TailInput.kindOf, ht, hc, pure, Except.pure]

theorem tailInv_opened {n : Nat} {k : Kind} {s : TailState} (h : TailInv t at? n false [] s)
    (hs : s.response = none) (hk : at? n = some k) (hn : k.callIds.Nodup) :
    TailInv t at? (n + 1) false k.callIds
      { s with response := k.response?, responseStart := some n } where
  sorted := h.sorted
  below := fun item hm => Nat.lt_succ_of_lt (h.below item hm)
  made := h.made
  covered := by
    intro i k' r hi hk' hkr hc
    obtain hlt | rfl := Nat.lt_or_eq_of_le (Nat.le_of_lt_succ hi)
    · obtain hw | ⟨hs', -⟩ := h.covered i k' r hlt hk' hkr hc
      · exact .inl hw
      · rw [hs] at hs'
        simp at hs'
    · rw [hk] at hk'
      obtain rfl := Option.some.inj hk'
      exact .inr ⟨hkr, rfl⟩
  nodup := hn
  idle := by
    intro hr
    exact ⟨(h.idle hs).1, by simp [Kind.callIds, show k.response? = none from hr]⟩
  current := by
    intro r hr
    have hres := (h.idle hs).1
    have hr' : k.response? = some r := hr
    refine ⟨n, rfl, Nat.lt_succ_self n, ⟨k, hk, hr'⟩, h.below, ?_, ?_, ?_⟩
    · intro id
      simp [Kind.callIds, hr', hres]
    · simp [hres]
    · intro j hj
      have hnone := h.resultsStart hres
      simp [hnone] at hj
  afterResult := by simp [(h.idle hs).1]
  resultsStart := h.resultsStart

theorem tailInv_answered {n : Nat} {afterResult : Bool} {pending : List String} {id out : String}
    {s : TailState} (h : TailInv t at? n afterResult pending s)
    (hk : at? n = some (.answered id out)) (hid : id ∈ pending) :
    TailInv t at? (n + 1) true (pending.erase id) (TailInput.addResult n id out s) where
  sorted := h.sorted
  below := fun item hm => Nat.lt_succ_of_lt (h.below item hm)
  made := h.made
  covered := by
    intro i k' r hi hk' hkr hc
    obtain hlt | rfl := Nat.lt_or_eq_of_le (Nat.le_of_lt_succ hi)
    · exact h.covered i k' r hlt hk' hkr hc
    · rw [hk] at hk'
      obtain rfl := Option.some.inj hk'
      simp [Kind.response?] at hkr
  nodup := h.nodup.erase id
  idle := by
    intro hr
    have hp := (h.idle hr).2
    simp [hp] at hid
  current := by
    intro r hr
    obtain ⟨i, hstart, hopen⟩ := h.current r hr
    refine ⟨i, hstart, Nat.lt_succ_of_lt hopen.lt, hopen.source, hopen.last, ?_, ?_, ?_⟩
    · intro l
      rw [h.nodup.mem_erase_iff, hopen.pending l]
      show _ ↔ _ ∧ (s.results.set id out).lookup l = none
      rw [Dict.lookup_set]
      by_cases hl : id = l
      · simp [hl]
      · simp [hl, Ne.symm hl]
    · intro l o hl
      change (s.results.set id out).lookup l = some o at hl
      rw [Dict.lookup_set] at hl
      by_cases he : id = l
      · subst he
        rw [if_pos rfl] at hl
        obtain rfl := Option.some.inj hl
        exact ⟨((hopen.pending id).1 hid).1, n, hk⟩
      · rw [if_neg he] at hl
        exact hopen.answers l o hl
    · intro j hj
      have hj' : s.resultsStart.getD n = j := Option.some.inj hj
      cases hres : s.resultsStart with
      | none =>
        rw [hres] at hj'
        exact hj' ▸ hopen.lt
      | some m =>
        rw [hres] at hj'
        exact hj' ▸ hopen.resultsStart m hres
  afterResult := by
    have hl : (s.results.set id out).lookup id = some out := by simp [Dict.lookup_set]
    simpa [TailInput.addResult] using lookup_ne_nil hl
  resultsStart := by
    intro hnil
    have hl : (s.results.set id out).lookup id = some out := by simp [Dict.lookup_set]
    exact absurd hnil (lookup_ne_nil hl)

theorem tailInv_plain {n : Nat} {m : ChatMessage} {s : TailState} (h : TailInv t at? n false [] s)
    (hs : s.response = none) (hk : at? n = some (.plain m)) :
    TailInv t at? (n + 1) false []
      { s with result := s.result ++ [t.item n { m with reasoningContent := none }] } where
  sorted := by
    rw [List.pairwise_append]
    refine ⟨h.sorted, by simp, ?_⟩
    intro a ha b hb
    obtain rfl := List.mem_singleton.1 hb
    exact h.below a ha
  below := by
    intro a ha
    obtain ha | ha := List.mem_append.1 ha
    · exact Nat.lt_succ_of_lt (h.below a ha)
    · obtain rfl := List.mem_singleton.1 ha
      exact Nat.lt_succ_self n
  made := by
    intro a ha
    obtain ha | ha := List.mem_append.1 ha
    · exact h.made a ha
    · obtain rfl := List.mem_singleton.1 ha
      exact .inr ⟨.plain m, m, hk, .inl rfl, rfl⟩
  covered := by
    intro i k' r hi hk' hkr hc
    obtain hlt | rfl := Nat.lt_or_eq_of_le (Nat.le_of_lt_succ hi)
    · obtain ⟨a, ha, hw⟩ | ⟨hs', -⟩ := h.covered i k' r hlt hk' hkr hc
      · exact .inl ⟨a, List.mem_append_left _ ha, hw⟩
      · rw [hs] at hs'
        simp at hs'
    · rw [hk] at hk'
      obtain rfl := Option.some.inj hk'
      simp [Kind.response?] at hkr
  nodup := List.nodup_nil
  idle := fun _ => ⟨(h.idle hs).1, rfl⟩
  current := by simp [hs]
  afterResult := by simp [(h.idle hs).1]
  resultsStart := h.resultsStart

/-- One entry, when it leaves the round before it closed. -/
theorem tailInv_step {n : Nat} {afterResult : Bool} {pending : List String} {s : TailState}
    {entry : Entry} (h : TailInv t at? n afterResult pending s)
    (hk : at? n = some (t.kindOf n entry)) (hn : (t.kindOf n entry).callIds.Nodup)
    (hp : (t.kindOf n entry).Pairs pending) (hc : (t.kindOf n entry).Closes afterResult pending) :
    ∃ s', t.tailStep n entry s = .ok s' ∧
      TailInv t at? (n + 1) (t.kindOf n entry).isAnswer ((t.kindOf n entry).pendingAfter pending) s' := by
  rw [tailStep_eq]
  generalize t.kindOf n entry = k at *
  cases k with
  | opened r =>
    obtain rfl : pending = [] := hp
    obtain ⟨s', hf, h', hs'⟩ := flushRound_closed h
    exact ⟨_, by simp only [hf, ok_bind]; rfl, tailInv_opened h' hs' hk hn⟩
  | called r =>
    obtain rfl : pending = [] := hp
    obtain rfl : afterResult = false := hc
    have hres : s.results = [] := by
      by_contra hne
      have := h.afterResult.2 hne
      simp at this
    have hskip := tailInv_skipped h hres fun r' hr' => by
      obtain ⟨i, -, hopen⟩ := h.current r' hr'
      exact no_calls_of_no_results hopen hres
    exact ⟨_, rfl, tailInv_opened hskip rfl hk hn⟩
  | answered id out => exact ⟨_, rfl, tailInv_answered h hk hp⟩
  | plain m =>
    obtain rfl : pending = [] := hc
    obtain ⟨s', hf, h', hs'⟩ := flushRound_closed h
    exact ⟨_, by simp only [hf, ok_bind]; rfl, tailInv_plain h' hs' hk⟩

/-- The end of the list closes the last round. -/
theorem keepsResults_of_inv {n : Nat} {afterResult : Bool} {s : TailState}
    (h : TailInv t at? n afterResult [] s) (hlast : ∀ i k, at? i = some k → i < n) :
    ∃ s', t.flushRound s = .ok s' ∧ KeepsResults t at? s'.result := by
  obtain ⟨s', hf, h', hs'⟩ := flushRound_closed h
  refine ⟨s', hf, h'.sorted, ?_, h'.made⟩
  intro i k r hk hkr hc
  obtain hw | ⟨hr, -⟩ := h'.covered i k r (hlast i k hk) hk hkr hc
  · exact hw
  · rw [hs'] at hr
    simp at hr


/-! What a broken round leaves. -/

/-- No item starts at `i`, and none will. -/
structure Gone (i : Nat) (s : TailState) : Prop where
  result : ∀ item ∈ s.result, item.start ≠ i
  response : s.responseStart ≠ some i
  results : s.resultsStart ≠ some i

/-- A flush writes at most one item, at a start the state holds. -/
theorem flushRound_cases {s s' : TailState} (h : t.flushRound s = .ok s') :
    (∃ i m, s' = { result := s.result ++ [t.item i m] } ∧
      (s.responseStart = some i ∨ s.resultsStart = some i)) ∨
    s' = { s with response := none, responseStart := none } := by
  unfold TailInput.flushRound at h
  split at h
  · simp only [bind_eq_ok, expect_eq_ok, pure_eq_ok] at h
    obtain ⟨m, -, i, hi, rfl⟩ := h
    refine .inl ⟨i, m, rfl, ?_⟩
    split at hi
    · exact .inl hi
    · exact .inr hi
  · split at h
    · split at h
      · simp only [bind_eq_ok, expect_eq_ok, pure_eq_ok] at h
        obtain ⟨i, hi, rfl⟩ := h
        exact .inl ⟨i, _, rfl, .inl hi⟩
      · exact .inr (Except.ok.inj h).symm
    · exact .inr (Except.ok.inj h).symm

theorem flushRound_gone {i : Nat} {s s' : TailState} (hg : Gone i s) (h : t.flushRound s = .ok s') :
    Gone i s' := by
  obtain ⟨j, m, rfl, hj⟩ | rfl := flushRound_cases h
  · refine ⟨?_, by simp, by simp⟩
    intro item hm
    obtain hm | hm := List.mem_append.1 hm
    · exact hg.result item hm
    · obtain rfl := List.mem_singleton.1 hm
      rintro rfl
      obtain hr | hr := hj
      · exact hg.response hr
      · exact hg.results hr
  · exact ⟨hg.result, by simp, hg.results⟩

theorem flushRound_kept {item : RetainedItem} {s s' : TailState} (hm : item ∈ s.result)
    (h : t.flushRound s = .ok s') : item ∈ s'.result := by
  obtain ⟨j, m, rfl, -⟩ | rfl := flushRound_cases h
  · exact List.mem_append_left _ hm
  · exact hm

theorem tailStep_gone {n i : Nat} {entry : Entry} {s s' : TailState} (hi : i < n) (hg : Gone i s)
    (h : t.tailStep n entry s = .ok s') : Gone i s' := by
  have hne : n ≠ i := by omega
  rw [tailStep_eq] at h
  cases hk : t.kindOf n entry with
  | opened r =>
    simp only [hk, bind_eq_ok, pure_eq_ok] at h
    obtain ⟨s1, hf, rfl⟩ := h
    have hg1 := flushRound_gone hg hf
    exact ⟨hg1.result, by simpa using hne, hg1.results⟩
  | called r =>
    simp only [hk, Except.ok.injEq] at h
    subst h
    exact ⟨hg.result, by simpa using hne, hg.results⟩
  | answered id out =>
    simp only [hk, Except.ok.injEq] at h
    subst h
    refine ⟨hg.result, hg.response, ?_⟩
    intro he
    have he' : s.resultsStart.getD n = i := Option.some.inj he
    cases hr : s.resultsStart with
    | none =>
      rw [hr] at he'
      exact hne he'
    | some j =>
      rw [hr] at he'
      exact hg.results (hr.trans (congrArg some he'))
  | plain m =>
    simp only [hk, bind_eq_ok, pure_eq_ok] at h
    obtain ⟨s1, hf, rfl⟩ := h
    have hg1 := flushRound_gone hg hf
    refine ⟨?_, hg1.response, hg1.results⟩
    intro item hm
    obtain hm | hm := List.mem_append.1 hm
    · exact hg1.result item hm
    · obtain rfl := List.mem_singleton.1 hm
      exact hne

theorem tailStep_kept {n : Nat} {entry : Entry} {item : RetainedItem} {s s' : TailState}
    (hm : item ∈ s.result) (h : t.tailStep n entry s = .ok s') : item ∈ s'.result := by
  rw [tailStep_eq] at h
  cases hk : t.kindOf n entry with
  | opened r =>
    simp only [hk, bind_eq_ok, pure_eq_ok] at h
    obtain ⟨s1, hf, rfl⟩ := h
    have hkept := flushRound_kept hm hf
    exact hkept
  | called r =>
    simp only [hk, Except.ok.injEq] at h
    exact h ▸ hm
  | answered id out =>
    simp only [hk, Except.ok.injEq] at h
    exact h ▸ hm
  | plain m =>
    simp only [hk, bind_eq_ok, pure_eq_ok] at h
    obtain ⟨s1, hf, rfl⟩ := h
    exact List.mem_append_left _ (flushRound_kept hm hf)

theorem tailLoop_gone {n i : Nat} {entries : List Entry} {s s' : TailState} (hi : i < n)
    (hg : Gone i s) (h : t.tailLoop n entries s = .ok s') : Gone i s' := by
  induction entries generalizing n s with
  | nil => exact Except.ok.inj h ▸ hg
  | cons entry entries ih =>
    obtain ⟨s1, hs, h'⟩ := bind_eq_ok.1 h
    exact ih (Nat.lt_succ_of_lt hi) (tailStep_gone hi hg hs) h'

theorem tailLoop_kept {n : Nat} {entries : List Entry} {item : RetainedItem} {s s' : TailState}
    (hm : item ∈ s.result) (h : t.tailLoop n entries s = .ok s') : item ∈ s'.result := by
  induction entries generalizing n s with
  | nil => exact Except.ok.inj h ▸ hm
  | cons entry entries ih =>
    obtain ⟨s1, hs, h'⟩ := bind_eq_ok.1 h
    exact ih (tailStep_kept hm hs) h'

theorem pairwise_start_inj {items : List RetainedItem}
    (h : items.Pairwise fun a b => a.start < b.start) {a b : RetainedItem} (ha : a ∈ items)
    (hb : b ∈ items) (hab : a.start = b.start) : a = b := by
  by_contra hne
  have hp : items.Pairwise fun a b => a.start ≠ b.start := h.imp fun hlt => Nat.ne_of_lt hlt
  have : Std.Symm fun a b : RetainedItem => a.start ≠ b.start := ⟨fun _ _ hne => hne.symm⟩
  exact hp.forall ha hb hne hab

/-- A response merged into the next one has no message. -/
theorem called_lost {n : Nat} {r : ChatMessage} {s : TailState} (h : TailInv t at? n true [] s) :
    ∃ i k r0, i < n ∧ at? i = some k ∧ k.response? = some r0 ∧ r0.toolCalls ≠ [] ∧
      Gone i { s with response := some r, responseStart := some n } := by
  have hres := h.afterResult.1 rfl
  cases hr : s.response with
  | none => exact absurd (h.idle hr).1 hres
  | some r0 =>
    obtain ⟨i, -, hopen⟩ := h.current r0 hr
    obtain ⟨k, hk, hkr⟩ := hopen.source
    refine ⟨i, k, r0, hopen.lt, hk, hkr, calls_of_results hopen hres, ?_, ?_, ?_⟩
    · exact fun item hm => Nat.ne_of_lt (hopen.last item hm)
    · have hlt := hopen.lt
      simp only [ne_eq, Option.some.injEq]
      omega
    · intro he
      exact Nat.lt_irrefl i (hopen.resultsStart i he)

/-- A plain message before the last answer of a round: the round has no message,
or its response stands alone. -/
theorem plain_lost {n : Nat} {afterResult : Bool} {pending : List String} {s s' : TailState}
    (h : TailInv t at? n afterResult pending s) (hp : pending ≠ []) (hf : t.flushRound s = .ok s') :
    ∃ i k r, i < n ∧ at? i = some k ∧ k.response? = some r ∧ r.toolCalls ≠ [] ∧
      (Gone i s' ∨ ∃ item ∈ s'.result, item.start = i ∧ item.message.toolCalls ≠ []) := by
  cases hr : s.response with
  | none => exact absurd (h.idle hr).2 hp
  | some r =>
    obtain ⟨i, hstart, hopen⟩ := h.current r hr
    obtain ⟨k, hk, hkr⟩ := hopen.source
    obtain ⟨id, hid⟩ := List.exists_mem_of_ne_nil _ hp
    obtain ⟨hmem, hnone⟩ := (hopen.pending id).1 hid
    obtain ⟨call, hcall, rfl⟩ := List.mem_map.1 hmem
    have hcalls : r.toolCalls ≠ [] := List.ne_nil_of_mem hcall
    refine ⟨i, k, r, hopen.lt, hk, hkr, hcalls, ?_⟩
    by_cases hres : s.results = []
    · by_cases ht : truthy r.content = true
      · right
        simp only [TailInput.flushRound, hres, hr, ht, hstart, expect, ok_bind, pure_eq_ok, ne_eq,
          not_true_eq_false, if_false, if_true] at hf
        subst hf
        exact ⟨t.item i { r with reasoningContent := none }, by simp, rfl, hcalls⟩
      · left
        simp only [TailInput.flushRound, hres, hr, ht, pure_eq_ok, ne_eq, not_true_eq_false, if_false,
          Bool.false_eq_true] at hf
        subst hf
        refine ⟨fun item hm => Nat.ne_of_lt (hopen.last item hm), by simp, ?_⟩
        simp [h.resultsStart hres]
    · -- The lookup of the missing answer raises.
      simp only [TailInput.flushRound, hres, hr, toolResultEvidence, bind_eq_ok, ne_eq,
        not_false_eq_true, if_true] at hf
      obtain ⟨m, ⟨entries, hentries, -⟩, -⟩ := hf
      obtain ⟨out, hout⟩ := lookup_of_callEntries hentries call hcall
      rw [hnone] at hout
      simp at hout

/-- A round that is not closed loses its results. -/
theorem closes_of_keeps {n : Nat} {afterResult : Bool} {pending : List String}
    {s s1 s2 s' : TailState} {entry : Entry} {entries : List Entry}
    (h : TailInv t at? n afterResult pending s) (hp : (t.kindOf n entry).Pairs pending)
    (h1 : t.tailStep n entry s = .ok s1) (h2 : t.tailLoop (n + 1) entries s1 = .ok s2)
    (h3 : t.flushRound s2 = .ok s') (hk : KeepsResults t at? s'.result) :
    (t.kindOf n entry).Closes afterResult pending := by
  have hgone : ∀ {i k r}, i < n → at? i = some k → k.response? = some r → r.toolCalls ≠ [] →
      ¬ Gone i s1 := by
    intro i k r hi hat hkr hc hg
    have hg' := flushRound_gone (tailLoop_gone (Nat.lt_succ_of_lt hi) hg h2) h3
    obtain ⟨item, hm, hs, -⟩ := hk.rounds i k r hat hkr hc
    exact hg'.result item hm hs
  rw [tailStep_eq] at h1
  generalize t.kindOf n entry = kind at *
  cases kind with
  | opened r => trivial
  | answered id out => trivial
  | called r =>
    obtain rfl : pending = [] := hp
    show afterResult = false
    by_contra hne
    obtain rfl : afterResult = true := by simpa using hne
    obtain ⟨i, k, r0, hi, hat, hkr, hc, hg⟩ := called_lost (r := r) h
    exact hgone hi hat hkr hc (Except.ok.inj h1 ▸ hg)
  | plain m =>
    show pending = []
    by_contra hne
    simp only [bind_eq_ok, pure_eq_ok] at h1
    obtain ⟨s0, hf, rfl⟩ := h1
    obtain ⟨i, k, r, hi, hat, hkr, hc, hg | ⟨item, hm, hs, htool⟩⟩ := plain_lost h hne hf
    · refine hgone hi hat hkr hc ⟨?_, hg.response, hg.results⟩
      intro item hm
      obtain hm | hm := List.mem_append.1 hm
      · exact hg.result item hm
      · obtain rfl := List.mem_singleton.1 hm
        exact Nat.ne_of_gt hi
    · have hfinal : item ∈ s'.result :=
        flushRound_kept (tailLoop_kept (List.mem_append_left _ hm) h2) h3
      obtain ⟨round, hround, hrs, out, -, hmsg⟩ := hk.rounds i k r hat hkr hc
      obtain rfl := pairwise_start_inj hk.ordered hfinal hround (hs.trans hrs.symm)
      rw [hmsg] at htool
      exact htool rfl

/-! A whole list. -/

theorem nativeTailItems_of_closed {n : Nat} {afterResult : Bool} {pending : List String}
    {s : TailState} {entries : List Entry} (h : TailInv t at? n afterResult pending s)
    (hat : ∀ j, at? (n + j) = (t.kinds n entries)[j]?)
    (hn : ∀ k ∈ t.kinds n entries, k.callIds.Nodup) (hp : Paired pending (t.kinds n entries))
    (hc : RoundsClosed afterResult pending (t.kinds n entries)) :
    ∃ s2 s', t.tailLoop n entries s = .ok s2 ∧ t.flushRound s2 = .ok s' ∧
      KeepsResults t at? s'.result := by
  induction entries generalizing n afterResult pending s with
  | nil =>
    obtain rfl : pending = [] := hp
    have hlast : ∀ i k, at? i = some k → i < n := by
      intro i k hk
      by_contra hle
      have hnone := hat (i - n)
      rw [Nat.add_sub_cancel' (Nat.le_of_not_lt hle), hk] at hnone
      simp [TailInput.kinds] at hnone
    obtain ⟨s', hf, hk⟩ := keepsResults_of_inv h hlast
    exact ⟨s, s', rfl, hf, hk⟩
  | cons entry entries ih =>
    have hhead : at? n = some (t.kindOf n entry) := by simpa [TailInput.kinds] using hat 0
    obtain ⟨s1, hs, h'⟩ := tailInv_step h hhead (hn _ (by simp [TailInput.kinds])) hp.1 hc.1
    obtain ⟨s2, s', hloop, hf, hk⟩ := ih h' (fun j => by
      have hj := hat (j + 1)
      rw [show n + (j + 1) = n + 1 + j by omega] at hj
      simpa [TailInput.kinds] using hj)
      (fun k hk => hn k (by simp [TailInput.kinds, hk])) hp.2 hc.2
    exact ⟨s2, s', by simp [TailInput.tailLoop, hs, ok_bind, hloop], hf, hk⟩

theorem closed_of_nativeTailItems {n : Nat} {afterResult : Bool} {pending : List String}
    {s s2 s' : TailState} {entries : List Entry} (h : TailInv t at? n afterResult pending s)
    (hat : ∀ j, at? (n + j) = (t.kinds n entries)[j]?)
    (hn : ∀ k ∈ t.kinds n entries, k.callIds.Nodup) (hp : Paired pending (t.kinds n entries))
    (h2 : t.tailLoop n entries s = .ok s2) (h3 : t.flushRound s2 = .ok s')
    (hk : KeepsResults t at? s'.result) : RoundsClosed afterResult pending (t.kinds n entries) := by
  induction entries generalizing n afterResult pending s with
  | nil => trivial
  | cons entry entries ih =>
    obtain ⟨s1, hs, hrest⟩ := bind_eq_ok.1 h2
    have hhead : at? n = some (t.kindOf n entry) := by simpa [TailInput.kinds] using hat 0
    have hc := closes_of_keeps h hp.1 hs hrest h3 hk
    obtain ⟨s1', hs', h'⟩ := tailInv_step h hhead (hn _ (by simp [TailInput.kinds])) hp.1 hc
    obtain rfl : s1 = s1' := Except.ok.inj (hs.symm.trans hs')
    refine ⟨hc, ih h' (fun j => ?_) (fun k hk => hn k (by simp [TailInput.kinds, hk])) hp.2 hrest⟩
    have hj := hat (j + 1)
    rw [show n + (j + 1) = n + 1 + j by omega] at hj
    simpa [TailInput.kinds] using hj

end Rounds

/-- The conversion keeps every result with its call exactly when it meets no
response before the round of the last one is closed. -/
theorem nativeTailItems_keeps_iff (t : TailInput) (offset : Nat) (entries : List Entry)
    (hids : ((t.kinds offset entries).flatMap Kind.callIds).Nodup)
    (hp : Paired [] (t.kinds offset entries)) :
    (∃ items, t.nativeTailItems offset entries = .ok items ∧
      KeepsResults t (kindAt offset (t.kinds offset entries)) items) ↔
    RoundsClosed false [] (t.kinds offset entries) := by
  have hinit : TailInv t (kindAt offset (t.kinds offset entries)) offset false [] {} :=
    tailInv_init fun i hi => by simp [kindAt, Nat.not_le.2 hi]
  have hat : ∀ j, kindAt offset (t.kinds offset entries) (offset + j) =
      (t.kinds offset entries)[j]? := fun j => by simp [kindAt]
  have hn : ∀ k ∈ t.kinds offset entries, k.callIds.Nodup :=
    fun k hk => (List.nodup_flatMap.1 hids).1 k hk
  constructor
  · rintro ⟨items, hitems, hk⟩
    simp only [TailInput.nativeTailItems, bind_eq_ok, pure_eq_ok] at hitems
    obtain ⟨s2, h2, s', h3, rfl⟩ := hitems
    exact closed_of_nativeTailItems hinit hat hn hp h2 h3 hk
  · intro hc
    obtain ⟨s2, s', h2, h3, hk⟩ := nativeTailItems_of_closed hinit hat hn hp hc
    exact ⟨s'.result, by simp [TailInput.nativeTailItems, h2, h3, ok_bind, pure, Except.pure], hk⟩

/-! One list of each kind. -/

def toolRound (id : String) : ChatMessage where
  role := "assistant"
  content := some "reading"
  toolCalls := [{ id := id, function := { name := "read", arguments := "\x7b\x7d" } }]

def toolMessage (id output : String) : ChatMessage where
  role := "tool"
  content := some output
  toolCallId := some id

def checkpoint : ProviderContinuation where
  provider := "gemini"
  protocol := "gemini"
  payload := .tuple []
  profileId := "main"

def sampleInput : TailInput where
  recorded := [(1, toolRound "a"), (4, toolRound "c")]
  lastResponse := some 4
  callKey := none
  keepFrom := 4

/-- A round on a provider's own state, then two rounds apart, then the last one. -/
def closedRounds : List Entry :=
  [.message { role := "user", content := some "task" }, .continuation checkpoint,
    .output { callId := "a", output := "1" }, .message { role := "user", content := some "next" },
    .continuation checkpoint, .output { callId := "c", output := "3" }]

theorem nativeTailItems_keeps_sample :
    ∃ items, sampleInput.nativeTailItems 0 closedRounds = .ok items ∧
      KeepsResults sampleInput (kindAt 0 (sampleInput.kinds 0 closedRounds)) items :=
  (nativeTailItems_keeps_iff sampleInput 0 closedRounds (by decide) (by decide)).2 (by decide)

/-- Two rounds of a provider without continuations, then a change of provider. -/
def mergedRounds : List Entry :=
  [.message (toolRound "a"), .message (toolMessage "a" "1"), .message (toolRound "b"),
    .message (toolMessage "b" "2"), .continuation checkpoint,
    .output { callId := "c", output := "3" }]

def mergedInput : TailInput where
  recorded := [(4, toolRound "c")]
  lastResponse := some 4
  callKey := none
  keepFrom := 4

theorem nativeTailItems_drops_round :
    ((mergedInput.kinds 0 mergedRounds).flatMap Kind.callIds).Nodup ∧
      Paired [] (mergedInput.kinds 0 mergedRounds) ∧
      ¬ ∃ items, mergedInput.nativeTailItems 0 mergedRounds = .ok items ∧
        KeepsResults mergedInput (kindAt 0 (mergedInput.kinds 0 mergedRounds)) items := by
  refine ⟨by decide, by decide, ?_⟩
  rintro ⟨items, hitems, hk⟩
  have hstarts : (mergedInput.nativeTailItems 0 mergedRounds).toOption.map
      (fun items => items.map (·.start)) = some [2, 4] := by decide +kernel
  rw [hitems] at hstarts
  have hstarts' : items.map (·.start) = [2, 4] := Option.some.inj hstarts
  obtain ⟨item, hm, hs, -⟩ := hk.rounds 0 (.called (toolRound "a")) (toolRound "a") rfl rfl (by simp [toolRound])
  have hmem : 0 ∈ items.map (·.start) := hs ▸ List.mem_map_of_mem hm
  simp [hstarts'] at hmem

end Yuki.Compaction

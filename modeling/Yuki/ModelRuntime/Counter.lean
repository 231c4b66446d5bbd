import Mathlib.Tactic.Abel
import Yuki.ModelRuntime.Capacity

/-! The cost of a JSON text is the sum of the costs of its fragments and delimiters,
so that the counter agrees with the estimate of the whole request. -/

namespace Yuki.ModelRuntime

open Compaction

/-! Costs of texts. -/

def textCost (text : List Char) : InputTokenCost :=
  { ascii := asciiCount text, nonAscii := text.length - asciiCount text }

theorem asciiCount_le (text : List Char) : asciiCount text ≤ text.length :=
  List.countP_le_length

theorem textCost_append (a b : List Char) : textCost (a ++ b) = textCost a + textCost b := by
  have ha := asciiCount_le a
  have hb := asciiCount_le b
  unfold textCost asciiCount at *
  ext
  · simp
  · simp only [List.countP_append, List.length_append, InputTokenCost.add_nonAscii]
    omega
  · rfl

/-- The delimiters between the members of a container. -/
def delimiters (count : Nat) : InputTokenCost :=
  { ascii := (count - 1) * 2 }

def brackets : InputTokenCost :=
  { ascii := 2 }

theorem delimiters_succ (n : Nat) : delimiters (n + 2) = { ascii := 2 } + delimiters (n + 1) := by
  ext <;> simp [delimiters]
  omega

/-- The text of a value with the usual separators. -/
def chars (j : Json) : List Char :=
  j.chars [',', ' '] [':', ' ']

theorem textCost_charsItems (items : List Json) :
    textCost (Json.charsItems [',', ' '] [':', ' '] items) =
      (items.map fun item => textCost (chars item)).sum + delimiters items.length := by
  induction items with
  | nil => rfl
  | cons item items ih =>
    cases items with
    | nil =>
      rw [Json.charsItems, List.map_singleton, List.sum_singleton]
      exact (add_zero _).symm
    | cons next items =>
      have hlength : delimiters (item :: next :: items).length =
          { ascii := 2 } + delimiters (next :: items).length := delimiters_succ items.length
      rw [Json.charsItems, textCost_append, textCost_append, ih, hlength]
      · simp only [List.map_cons, List.sum_cons]
        change textCost (chars item) + { ascii := 2 } + _ = _
        abel
      · exact List.cons_ne_nil _ _

/-- The text of a field. -/
def fieldChars (field : String × Json) : List Char :=
  Json.quote field.1 ++ [':', ' '] ++ chars field.2

theorem textCost_charsFields (fields : List (String × Json)) :
    textCost (Json.charsFields [',', ' '] [':', ' '] fields) =
      (fields.map fun field => textCost (fieldChars field)).sum + delimiters fields.length := by
  induction fields with
  | nil => rfl
  | cons field fields ih =>
    obtain ⟨k, v⟩ := field
    cases fields with
    | nil =>
      rw [Json.charsFields, List.map_singleton, List.sum_singleton]
      exact (add_zero _).symm
    | cons next fields =>
      have hlength : delimiters ((k, v) :: next :: fields).length =
          { ascii := 2 } + delimiters (next :: fields).length := delimiters_succ fields.length
      rw [Json.charsFields, textCost_append, textCost_append, ih, hlength]
      · simp only [List.map_cons, List.sum_cons]
        change textCost (fieldChars (k, v)) + { ascii := 2 } + _ = _
        abel
      · exact List.cons_ne_nil _ _

theorem textCost_arr (items : List Json) : textCost (chars (.arr items)) =
    brackets + (items.map fun item => textCost (chars item)).sum + delimiters items.length := by
  have happ : chars (.arr items) = ['['] ++ Json.charsItems [',', ' '] [':', ' '] items ++ [']'] :=
    rfl
  rw [happ, textCost_append, textCost_append, textCost_charsItems]
  change ({ ascii := 1 } : InputTokenCost) + _ + { ascii := 1 } = _
  have hb : brackets = { ascii := 1 } + { ascii := 1 } := rfl
  rw [hb]
  abel

theorem textCost_obj (fields : List (String × Json)) : textCost (chars (.obj fields)) =
    brackets + (fields.map fun field => textCost (fieldChars field)).sum +
      delimiters fields.length := by
  have happ : chars (.obj fields) =
      [Char.ofNat 123] ++ Json.charsFields [',', ' '] [':', ' '] fields ++ [Char.ofNat 125] := rfl
  rw [happ, textCost_append, textCost_append, textCost_charsFields]
  change ({ ascii := 1 } : InputTokenCost) + _ + { ascii := 1 } = _
  have hb : brackets = { ascii := 1 } + { ascii := 1 } := rfl
  rw [hb]
  abel

section Values

variable (text : ChatImage ⊕ ProviderContinuation → String)

/-! Costs of values. -/

def mediaCost (media : Nat) : InputTokenCost :=
  { media := media }

theorem mediaCost_add (a b : Nat) : mediaCost (a + b) = mediaCost a + mediaCost b := by
  ext <;> simp [mediaCost]

/-- The cost of a value below the top. -/
def valueCost (value : Input) : InputTokenCost :=
  textCost (chars ((withoutBinary false value).1.dumped text)) +
    mediaCost (withoutBinary false value).2

def declared (top : Bool) (name : String) : Prop :=
  top = true ∧ name ∈ declarations

instance (top : Bool) (name : String) : Decidable (declared top name) :=
  inferInstanceAs (Decidable (_ ∧ _))

/-- The cost of a field; a declaration is counted as it is. -/
def fieldCost (top : Bool) (field : String × Input) : InputTokenCost :=
  textCost (Json.quote field.1 ++ [':', ' ']) +
    if declared top field.1 then textCost (chars (field.2.dumped text)) else valueCost text field.2

theorem fieldCost_of_not_declared (top : Bool) {name : String} (h : name ∉ declarations)
    (value : Input) : fieldCost text top (name, value) =
      textCost (Json.quote name ++ [':', ' ']) + valueCost text value := by
  rw [fieldCost, if_neg fun hd : declared top name => h hd.2]

theorem valueCost_list (items : List Input) : valueCost text (.list items) =
    brackets + (items.map (valueCost text)).sum + delimiters items.length := by
  have hlength : (Input.dumpedItems text (withoutItems items).1).length = items.length := by
    induction items with
    | nil => rfl
    | cons item items ih => simp [withoutItems, Input.dumpedItems, ih]
  have hsum : ((Input.dumpedItems text (withoutItems items).1).map fun item =>
      textCost (chars item)).sum + mediaCost (withoutItems items).2 =
      (items.map (valueCost text)).sum := by
    clear hlength
    induction items with
    | nil => rfl
    | cons item items ih =>
      rw [withoutItems, Input.dumpedItems, List.map_cons, List.sum_cons, List.map_cons,
        List.sum_cons, ← ih, mediaCost_add, valueCost]
      abel
  rw [valueCost, withoutBinary, Input.dumped, textCost_arr, hlength, ← hsum]
  abel

theorem withoutFields_cons (top : Bool) (k : String) (v : Input) (fs : List (String × Input)) :
    withoutFields top ((k, v) :: fs) = if declared top k then
        ((k, v) :: (withoutFields top fs).1, (withoutFields top fs).2)
      else ((k, (withoutBinary false v).1) :: (withoutFields top fs).1,
        (withoutBinary false v).2 + (withoutFields top fs).2) := rfl

/-- A dictionary, at the top or below it. -/
theorem dictCost (top : Bool) (fields : List (String × Input)) :
    textCost (chars ((withoutBinary top (.dict fields)).1.dumped text)) +
      mediaCost (withoutBinary top (.dict fields)).2 =
      brackets + (fields.map (fieldCost text top)).sum + delimiters fields.length := by
  have hlength : (Input.dumpedFields text (withoutFields top fields).1).length = fields.length := by
    induction fields with
    | nil => rfl
    | cons field fields ih =>
      obtain ⟨k, v⟩ := field
      rw [withoutFields_cons]
      split <;> simp [Input.dumpedFields, ih]
  have hsum : ((Input.dumpedFields text (withoutFields top fields).1).map fun field =>
      textCost (fieldChars field)).sum + mediaCost (withoutFields top fields).2 =
      (fields.map (fieldCost text top)).sum := by
    clear hlength
    induction fields with
    | nil => rfl
    | cons field fields ih =>
      obtain ⟨k, v⟩ := field
      rw [List.map_cons, List.sum_cons, ← ih, fieldCost]
      rw [withoutFields_cons]
      by_cases hk : declared top k
      · rw [if_pos hk, if_pos hk, Input.dumpedFields, List.map_cons, List.sum_cons, fieldChars,
          textCost_append]
        abel
      · rw [if_neg hk, if_neg hk, Input.dumpedFields, List.map_cons, List.sum_cons, fieldChars,
          textCost_append, mediaCost_add, valueCost]
        abel
  rw [withoutBinary, Input.dumped, textCost_obj, hlength, ← hsum]
  abel

theorem inputTokenCost_eq (value : Input) : inputTokenCost text value =
    textCost (chars ((withoutBinary true value).1.dumped text)) +
      mediaCost (withoutBinary true value).2 := by
  ext <;> simp [inputTokenCost, textCost, mediaCost, chars]

theorem inputTokenCost_dict (fields : List (String × Input)) : inputTokenCost text (.dict fields) =
    brackets + (fields.map (fieldCost text true)).sum + delimiters fields.length := by
  rw [inputTokenCost_eq, dictCost]

/-- Without a declaration among its fields a dictionary costs the same at the top. -/
theorem inputTokenCost_eq_valueCost {fields : List (String × Input)}
    (h : ∀ field ∈ fields, field.1 ∉ declarations) :
    inputTokenCost text (.dict fields) = valueCost text (.dict fields) := by
  have hfields : fields.map (fieldCost text true) = fields.map (fieldCost text false) := by
    refine List.map_congr_left fun field hfield => ?_
    obtain ⟨k, v⟩ := field
    rw [fieldCost_of_not_declared text true (h _ hfield),
      fieldCost_of_not_declared text false (h _ hfield)]
  rw [inputTokenCost_dict, hfields, valueCost, dictCost]

theorem inputTokenCost_continuation (c : ProviderContinuation) :
    inputTokenCost text (.continuation c) = valueCost text (.continuation c) := by
  rw [inputTokenCost_eq, valueCost, withoutBinary, withoutBinary]

theorem inputTokenCost_messageInput (m : Compaction.ChatMessage) :
    inputTokenCost text (messageInput m) = valueCost text (messageInput m) := by
  unfold messageInput
  split
  · exact inputTokenCost_eq_valueCost text (by simp [declarations])
  · refine inputTokenCost_eq_valueCost text fun field hfield => ?_
    simp only [optional, nonempty, List.mem_cons, List.mem_append, Option.mem_toList,
      Option.map_eq_some_iff] at hfield
    rcases hfield with rfl | (((⟨_, _, rfl⟩ | h) | ⟨_, _, rfl⟩) | ⟨_, _, rfl⟩) | h
    · simp [declarations]
    · simp [declarations]
    · split at h
      · simp at h
      · rw [List.mem_singleton.mp h]
        simp [declarations]
    · simp [declarations]
    · simp [declarations]
    · split at h
      · simp at h
      · rw [List.mem_singleton.mp h]
        simp [declarations]

theorem inputTokenCost_recordInput (r : Record) :
    inputTokenCost text (recordInput r) = valueCost text (recordInput r) := by
  cases r with
  | message m => exact inputTokenCost_messageInput text m
  | output o => exact inputTokenCost_eq_valueCost text (by simp [declarations])

/-! The request. -/

/-- The sequence cost of these records. -/
def recordsCost (records : List Record) : InputSequenceCost :=
  ⟨(records.map fun r => valueCost text (recordInput r)).sum, records.length⟩

def messagesCost (messages : List Compaction.ChatMessage) : InputSequenceCost :=
  ⟨(messages.map fun m => valueCost text (messageInput m)).sum, messages.length⟩

theorem messagesCost_snoc (messages : List Compaction.ChatMessage) (m : Compaction.ChatMessage) :
    messagesCost text (messages ++ [m]) = messagesCost text messages + messageTokenCost text m := by
  rw [messagesCost, List.map_append, List.sum_append, List.length_append, messageTokenCost,
    inputTokenCost_messageInput]
  simp
  rfl

theorem sum_messageTokenCost (messages : List Compaction.ChatMessage) :
    (messages.map (messageTokenCost text)).sum = messagesCost text messages := by
  induction messages with
  | nil => rfl
  | cons m messages ih =>
    rw [List.map_cons, List.sum_cons, ih, messageTokenCost, inputTokenCost_messageInput,
      messagesCost, messagesCost, List.map_cons, List.sum_cons, List.length_cons, Nat.add_comm]
    rfl

theorem recordsCost_snoc (records : List Record) (r : Record) :
    recordsCost text (records ++ [r]) =
      recordsCost text records + ⟨inputTokenCost text (recordInput r), 1⟩ := by
  rw [recordsCost, List.map_append, List.sum_append, List.length_append, inputTokenCost_recordInput]
  simp
  rfl

theorem valueCost_messages (messages : List Compaction.ChatMessage) :
    valueCost text (.list (messages.map messageInput)) =
      brackets + (messagesCost text messages).interior := by
  rw [valueCost_list, List.map_map, List.length_map, InputSequenceCost.interior, messagesCost,
    add_assoc]
  rfl

theorem valueCost_records (records : List Record) :
    valueCost text (.list (records.map recordInput)) =
      brackets + (recordsCost text records).interior := by
  rw [valueCost_list, List.map_map, List.length_map, InputSequenceCost.interior, recordsCost,
    add_assoc]
  rfl

/-- What a checkpoint adds to a request. -/
def continuationCost : Option ProviderContinuation → InputTokenCost
  | some c => { ascii := 18 } + valueCost text (.continuation c)
  | none => 0

def itemsCost (records : List Record) : InputTokenCost :=
  if records = [] then 0 else { ascii := 26 } + (recordsCost text records).interior

theorem delimiters_add (m n k : Nat) : delimiters (m + n + k + 1 + 1) = delimiters (m + 1 + 1) +
    { ascii := n * 2 } + { ascii := k * 2 } := by
  ext <;> simp [delimiters]
  omega

/-- The whole request costs what its settings cost, and what every part adds. -/
theorem inputTokenCost_requestInput (request : ChatRequest) :
    inputTokenCost text (requestInput request) =
      (RequestTokenCounter.new text request).base + (messagesCost text request.messages).interior +
        continuationCost text request.continuation + itemsCost text request.continuationItems := by
  have hsettings : ∃ rest, settingsInput request = ("model", .str request.model) :: rest := ⟨_, rfl⟩
  obtain ⟨rest, hrest⟩ := hsettings
  have hmessages : ∀ messages : List Compaction.ChatMessage,
      fieldCost text true ("messages", .list (messages.map messageInput)) =
        textCost (Json.quote "messages" ++ [':', ' ']) + (brackets +
          (messagesCost text messages).interior) := by
    intro messages
    rw [fieldCost_of_not_declared text true (by decide), valueCost_messages]
  have hempty : (messagesCost text []).interior = 0 := rfl
  have hcontinuation : ((optional "continuation" (request.continuation.map .continuation)).map
      (fieldCost text true)).sum + { ascii := (optional "continuation"
        (request.continuation.map Input.continuation)).length * 2 } =
      continuationCost text request.continuation := by
    cases request.continuation with
    | none => rfl
    | some c =>
      change fieldCost text true ("continuation", .continuation c) + 0 + { ascii := 2 } = _
      rw [fieldCost_of_not_declared text true (by decide), continuationCost]
      have hq : textCost (Json.quote "continuation" ++ [':', ' ']) + { ascii := 2 } =
        { ascii := 18 } := by decide
      rw [← hq]
      abel
  have hitems : ((nonempty "continuation_items" (request.continuationItems.map recordInput)).map
      (fieldCost text true)).sum + { ascii := (nonempty "continuation_items"
        (request.continuationItems.map recordInput)).length * 2 } =
      itemsCost text request.continuationItems := by
    cases request.continuationItems with
    | nil => rfl
    | cons r records =>
      change fieldCost text true ("continuation_items", .list ((r :: records).map recordInput)) +
        0 + { ascii := 2 } = _
      rw [fieldCost_of_not_declared text true (by decide), valueCost_records, itemsCost,
        if_neg (List.cons_ne_nil _ _)]
      have hq : textCost (Json.quote "continuation_items" ++ [':', ' ']) + brackets +
        { ascii := 2 } = { ascii := 26 } := by decide
      rw [← hq]
      abel
  have hbase : settingsInput { request with
      messages := [], continuation := none, continuationItems := [] } = settingsInput request := rfl
  rw [RequestTokenCounter.new, requestInput, requestInput, hbase, inputTokenCost_dict,
    inputTokenCost_dict, hrest]
  simp only [List.map_cons, List.sum_cons, List.map_append, List.sum_append, List.length_cons,
    List.length_append, List.cons_append, hmessages]
  have hnone : optional "continuation" (Option.map Input.continuation none) = [] := rfl
  have hnil : nonempty "continuation_items" (List.map recordInput []) = [] := rfl
  rw [hempty, ← hcontinuation, ← hitems, hnone, hnil, List.map_nil, List.sum_nil, List.length_nil,
    delimiters_add, Nat.add_zero, Nat.add_zero]
  abel

/-! The counter. -/

/-- What the counter holds after the entries of a transcript. -/
theorem counter_eq (request : ChatRequest) (entries : List Entry) :
    RequestTokenCounter.scan text request entries =
      { base := (RequestTokenCounter.new text request).base
        messages := messagesCost text (Compaction.request entries).messages
        continuation := (Compaction.request entries).continuation.map fun c =>
          valueCost text (.continuation c)
        items := recordsCost text (Compaction.request entries).items } := by
  unfold RequestTokenCounter.scan
  induction entries using List.reverseRecOn with
  | nil => rfl
  | append_singleton entries e ih =>
    rw [List.foldl_append, ih, List.foldl_cons, List.foldl_nil]
    cases e with
    | continuation c =>
      rw [request_snoc_continuation, RequestTokenCounter.append, inputTokenCost_continuation]
      rfl
    | message m =>
      have hsnoc := request_snoc_record entries (.message m)
      rw [Record.entry] at hsnoc
      rw [hsnoc]
      cases hc : (Compaction.request entries).continuation with
      | none =>
        simp [RequestTokenCounter.append, hc, messagesCost_snoc, Entry.message?]
      | some c =>
        rw [if_neg (Option.some_ne_none c)]
        simp only [RequestTokenCounter.append, hc, recordsCost_snoc, Option.map_some]
        rfl
    | output o =>
      have hsnoc := request_snoc_record entries (.output o)
      rw [Record.entry] at hsnoc
      rw [hsnoc]
      cases hc : (Compaction.request entries).continuation with
      | none =>
        simp [RequestTokenCounter.append, hc, Entry.message?]
      | some c =>
        rw [if_neg (Option.some_ne_none c)]
        simp only [RequestTokenCounter.append, hc, recordsCost_snoc, Option.map_some]
        rfl

/-- A request with the parts of a transcript. -/
def ChatRequest.withTranscript (request : ChatRequest) (transcript : TranscriptRequest) :
    ChatRequest :=
  { request with
    messages := transcript.messages
    continuation := transcript.continuation
    continuationItems := transcript.items }

theorem new_withTranscript (request : ChatRequest) (transcript : TranscriptRequest) :
    RequestTokenCounter.new text (request.withTranscript transcript) =
      RequestTokenCounter.new text request := rfl

theorem add_zero_sequence (cost : InputSequenceCost) : cost + 0 = cost := by
  obtain ⟨items, count⟩ := cost
  change InputSequenceCost.mk (items + 0) (count + 0) = _
  rw [add_zero, Nat.add_zero]

/-- An estimate with one more message is that of the counter the message was appended to. -/
theorem estimate_messageTokenCost (counter : RequestTokenCounter) (m : Compaction.ChatMessage) :
    counter.estimate (messageTokenCost text m) =
      (RequestTokenCounter.append text counter (.message m)).estimate 0 := by
  unfold RequestTokenCounter.estimate RequestTokenCounter.append
  cases counter.continuation with
  | none => simp [add_zero_sequence]
  | some c => simp [add_zero_sequence]

/-- Before a checkpoint there are no items. -/
theorem items_eq_nil {entries : List Entry}
    (h : (Compaction.request entries).continuation = none) :
    (Compaction.request entries).items = [] := by
  rw [request_continuation, ← checkpoints_eq_nil_iff] at h
  unfold Compaction.request
  rw [h]

theorem estimate_scan (request : ChatRequest) (entries : List Entry) :
    (RequestTokenCounter.scan text request entries).estimate 0 =
      estimateRequestTokens text (request.withTranscript (Compaction.request entries)) := by
  have hnil : _ → (Compaction.request entries).items = [] := items_eq_nil
  rw [counter_eq, estimateRequestTokens, inputTokenCost_requestInput, new_withTranscript]
  unfold RequestTokenCounter.estimate ChatRequest.withTranscript
  generalize Compaction.request entries = transcript at hnil ⊢
  obtain ⟨messages, continuation, items⟩ := transcript
  dsimp only at hnil ⊢
  have hitems : (if (recordsCost text items).count ≠ 0 then
      ({ ascii := ", \"continuation_items\": []".length } + (recordsCost text items).interior :
        InputTokenCost) else 0) = itemsCost text items := by
    cases items with
    | nil => rfl
    | cons r items =>
      rw [itemsCost, if_neg (List.cons_ne_nil _ _), if_pos (by simp [recordsCost])]
      rfl
  rw [← hitems]
  cases continuation with
  | none =>
    rw [hnil rfl]
    simp [add_zero_sequence, continuationCost, recordsCost]
  | some c =>
    simp only [Option.map_some, Option.isNone_some, Option.isSome_some, if_true,
      Bool.false_eq_true, if_false, add_zero_sequence, continuationCost]
    split
    · rfl
    · rw [add_zero]
      rfl

/-- The incremental counter gives the estimate of the whole request: for a transcript, for
one with a further message, and for a fresh request of any messages. -/
theorem counter_agrees_with_estimate (request : ChatRequest) (entries : List Entry) :
    (∀ m, (RequestTokenCounter.scan text request entries).estimate (messageTokenCost text m) =
      estimateRequestTokens text
        (request.withTranscript (Compaction.request (entries ++ [.message m])))) ∧
    (RequestTokenCounter.scan text request entries).estimate {} =
      estimateRequestTokens text (request.withTranscript (Compaction.request entries)) ∧
    ∀ messages : List Compaction.ChatMessage,
      (RequestTokenCounter.scan text request entries).estimateMessages
        (messages.map (messageTokenCost text)).sum =
      estimateRequestTokens text
        { request with messages := messages, continuation := none, continuationItems := [] } := by
  refine ⟨fun m => ?_, estimate_scan text request entries, fun messages => ?_⟩
  · rw [estimate_messageTokenCost, ← estimate_scan, RequestTokenCounter.scan,
      RequestTokenCounter.scan, List.foldl_append]
    rfl
  · rw [counter_eq, RequestTokenCounter.estimateMessages, estimateRequestTokens,
      inputTokenCost_requestInput, sum_messageTokenCost]
    change _ = ((RequestTokenCounter.new text request).base + _ + 0 + 0).tokens
    rw [add_zero, add_zero]

end Values

end Yuki.ModelRuntime

import Mathlib.Order.Bounds.Basic
import Yuki.Compaction.PlanIndex
import Yuki.Compaction.PlanTails

/-! The indexed choice is the choice that reads every tail and every request afresh. -/

namespace Yuki.Compaction

open ModelRuntime

theorem getD_nativeFrom (entries : List Entry) (k : Nat) :
    (nativeFrom entries).getD k false = (entries.drop k).any fun e => !e.isMessage := by
  induction entries generalizing k with
  | nil => cases k <;> simp [nativeFrom]
  | cons entry entries ih =>
    cases k with
    | zero =>
      have hhead : (nativeFrom entries).headD false = entries.any fun e => !e.isMessage := by
        have hfirst := ih 0
        rw [List.drop_zero] at hfirst
        rw [← hfirst]
        cases nativeFrom entries <;> rfl
      rw [nativeFrom, List.getD_cons_zero, hhead, List.drop_zero, List.any_cons, Bool.or_comm]
    | succ k => rw [nativeFrom, List.getD_cons_succ, ih, List.drop_succ_cons]

/-- The first hit from the back of an ascending list is the greatest. -/
theorem greatest_of_find? {xs : List Nat} (h : xs.Pairwise (· < ·)) {f : Nat → Bool} {b : Nat}
    (hfind : xs.reverse.find? f = some b) : b ∈ xs ∧ f b = true ∧ ∀ x ∈ xs, f x = true → x ≤ b := by
  obtain ⟨hb, front, rest, hsplit, hfront⟩ := List.find?_eq_some_iff_append.mp hfind
  refine ⟨List.mem_reverse.mp (hsplit ▸ by simp), hb, fun x hx hfx => ?_⟩
  have hx' : x ∈ front ++ b :: rest := hsplit ▸ List.mem_reverse.mpr hx
  have hdesc : (front ++ b :: rest).Pairwise (· > ·) := hsplit ▸ List.pairwise_reverse.mpr h
  rcases List.mem_append.mp hx' with hx | hx
  · have := hfront x hx
    rw [hfx] at this
    cases this
  · obtain rfl | hx := List.mem_cons.mp hx
    · exact Nat.le_refl _
    · exact Nat.le_of_lt ((List.pairwise_cons.mp (List.pairwise_append.mp hdesc).2.1).1 x hx)

theorem le_getLast {xs : List Nat} (h : xs.Pairwise (· < ·)) (hne : xs ≠ []) {x : Nat}
    (hx : x ∈ xs) : x ≤ xs.getLast hne := by
  have hsplit := List.dropLast_append_getLast hne
  rw [← hsplit] at hx h
  obtain hx | hx := List.mem_append.mp hx
  · exact Nat.le_of_lt ((List.pairwise_append.mp h).2.2 x hx _ (List.mem_singleton_self _))
  · exact Nat.le_of_eq (List.mem_singleton.mp hx)

namespace CompactInput

variable (p : CompactInput) (text : ChatImage ⊕ ProviderContinuation → String)

/-! The rule, read afresh at every boundary. -/

/-- The call ids that wait for their results before a boundary. -/
def pendingAt (boundary : Nat) : List String :=
  (p.entries.take boundary).zipIdx.foldl
    (fun pending entry => p.pendingAfter entry.2 entry.1 pending) []

/-- A boundary that leaves no call without its result and no checkpoint without its records. -/
structure Splits (boundary : Nat) : Prop where
  beyond : p.minimumBoundary < boundary
  inside : boundary ≤ p.entries.length
  answered : p.pendingAt boundary = []
  received : ∀ c, p.entries[boundary - 1]? ≠ some (.continuation c)
  whole : ∀ o, p.entries[boundary]? ≠ some (.output o)

/-- What is kept behind a boundary. -/
def keptItems (boundary : Nat) : Except CompactError (List RetainedItem) :=
  let keepBoundary := min boundary p.keepFrom
  if (p.entries.drop keepBoundary).any fun e => !e.isMessage then p.nativeItems keepBoundary
  else .ok (p.rawItems keepBoundary)

/-- The request that goes on from a summary, with what must be kept. -/
def continuedRequest (kept : List RetainedItem) : ChatRequest :=
  { p.settings with
    messages := p.initial ++ publicBeside p.initial p.retainedPublic kept ++
      (requiredItems p.keepFrom kept).map (·.message)
    continuation := none
    continuationItems := [] }

/-- The request that asks for the summary, and the one that goes on from it, are within the
budget. -/
structure Fits (boundary : Nat) (kept : List RetainedItem) : Prop where
  splits : p.Splits boundary
  finished : p.pendingAt p.entries.length = []
  prompt : ∀ budget, p.inputBudget = some budget →
    (estimateRequestTokens text (p.settings.withTranscript
      (request (p.entries.take boundary ++ [.message p.instruction]))) : Int) ≤ budget
  continued : ∀ budget, p.inputBudget = some budget →
    (estimateRequestTokens text (p.continuedRequest kept) : Int) ≤ budget

/-- The rounds of the transcript are answered and closed; a result makes no calls, and the
Host observation answers none. -/
structure RoundsKept : Prop where
  rounds : Closed p.tailInput 0 p.entries
  calls : ∀ m, .message m ∈ p.entries → truthy m.toolCallId = true → m.toolCalls = []
  observation : ∀ m, p.unobservedToolRound = some m → truthy m.toolCallId = false

/-! The scan. -/

/-- The prompt of a boundary is within the budget, by the counter of its entries. -/
def budgetedAt (boundary : Nat) : Bool :=
  p.budgeted text (p.inputBudget.map fun _ =>
    RequestTokenCounter.scan text p.settings (p.entries.take boundary))

def candidate (index : Nat) : Bool :=
  p.entries[index]?.any (fun entry =>
    p.splits index entry p.entries[index + 1]? (p.pendingAt (index + 1))) &&
    p.budgetedAt text (index + 1)

def candidatesBelow (count : Nat) : List Nat :=
  ((List.range count).filter (p.candidate text)).map (· + 1)

def scanAt (index : Nat) : Scan where
  counter := p.inputBudget.map fun _ =>
    RequestTokenCounter.scan text p.settings (p.entries.take index)
  pending := p.pendingAt index
  candidates := p.candidatesBelow text index

variable {p}

theorem take_succ_of {front rest : List Entry} {entry : Entry}
    (h : p.entries = front ++ entry :: rest) :
    p.entries.take (front.length + 1) = front ++ [entry] := by
  rw [h, List.take_append, List.take_of_length_le (Nat.le_succ _)]
  simp

theorem scanStep_scanAt {front rest : List Entry} {entry : Entry}
    (h : p.entries = front ++ entry :: rest) :
    p.scanStep text front.length entry rest.head? (p.scanAt text front.length) =
      p.scanAt text (front.length + 1) := by
  have htake : p.entries.take front.length = front := by rw [h, List.take_left]
  have hsucc := take_succ_of h
  have hentry : p.entries[front.length]? = some entry := by simp [h]
  have hnext : p.entries[front.length + 1]? = rest.head? := by
    rw [h, List.getElem?_append_right (Nat.le_add_right _ 1), Nat.add_sub_cancel_left,
      List.getElem?_cons_succ, List.head?_eq_getElem?]
  have hpending : p.pendingAfter front.length entry (p.pendingAt front.length) =
      p.pendingAt (front.length + 1) := by
    rw [pendingAt, pendingAt, htake, hsucc, List.zipIdx_append, List.foldl_append]
    simp
  have hcounter : ((p.inputBudget.map fun _ =>
      RequestTokenCounter.scan text p.settings (p.entries.take front.length)).map fun c =>
        RequestTokenCounter.append text c entry) = p.inputBudget.map fun _ =>
      RequestTokenCounter.scan text p.settings (p.entries.take (front.length + 1)) := by
    rw [Option.map_map, htake, hsucc]
    have happend : RequestTokenCounter.scan text p.settings (front ++ [entry]) =
        RequestTokenCounter.append text (RequestTokenCounter.scan text p.settings front) entry := by
      rw [RequestTokenCounter.scan, List.foldl_append]
      rfl
    rw [happend]
    rfl
  unfold scanStep scanAt
  dsimp only
  rw [hpending, hcounter, candidatesBelow, candidatesBelow, List.range_succ, List.filter_append,
    List.map_append]
  have hcandidate : p.candidate text front.length =
      (p.splits front.length entry rest.head? (p.pendingAt (front.length + 1)) &&
        p.budgeted text (p.inputBudget.map fun _ =>
          RequestTokenCounter.scan text p.settings (p.entries.take (front.length + 1)))) := by
    rw [candidate, hentry, hnext]
    rfl
  rw [← hcandidate]
  cases hc : p.candidate text front.length with
  | true => simp [hc]
  | false => simp [hc]

theorem scanFrom_scanAt (rest front : List Entry) (h : p.entries = front ++ rest) :
    p.scanFrom text front.length rest (p.scanAt text front.length) =
      p.scanAt text p.entries.length := by
  induction rest generalizing front with
  | nil =>
    rw [List.append_nil] at h
    rw [scanFrom, h]
  | cons entry rest ih =>
    have hnext := ih (front ++ [entry]) (by rw [h, List.append_assoc]; rfl)
    rw [List.length_append, List.length_singleton] at hnext
    rw [scanFrom, scanStep_scanAt text h]
    exact hnext

theorem scan_eq : p.scan text = p.scanAt text p.entries.length :=
  scanFrom_scanAt text p.entries [] rfl

theorem pairwise_candidatesBelow (count : Nat) :
    (p.candidatesBelow text count).Pairwise (· < ·) :=
  List.pairwise_map.mpr ((List.pairwise_lt_range.filter _).imp Nat.succ_lt_succ)

theorem mem_candidates {boundary : Nat} :
    boundary ∈ p.candidatesBelow text p.entries.length ↔
      p.Splits boundary ∧ p.budgetedAt text boundary = true := by
  unfold candidatesBelow
  rw [List.mem_map]
  constructor
  · rintro ⟨index, hindex, rfl⟩
    obtain ⟨hlt, hcandidate⟩ := List.mem_filter.mp hindex
    obtain ⟨hsplits, hbudget⟩ := Bool.and_eq_true_iff.mp hcandidate
    obtain ⟨entry, hentry, hsplits⟩ := (Option.any_eq_true _ _).mp hsplits
    simp only [splits, Bool.and_eq_true, decide_eq_true_eq, Option.isNone_iff_eq_none,
      Bool.not_eq_true', Option.any_eq_false] at hsplits
    obtain ⟨⟨⟨hbeyond, hpending⟩, hcontinuation⟩, hnext⟩ := hsplits
    refine ⟨⟨hbeyond, List.mem_range.mp hlt, hpending, fun c hc => ?_, fun o ho => ?_⟩, hbudget⟩
    · rw [Nat.add_sub_cancel, hentry] at hc
      cases hc
      cases hcontinuation
    · have := hnext _ ho
      cases this
  · rintro ⟨hsplits, hbudget⟩
    obtain ⟨index, rfl⟩ : ∃ index, boundary = index + 1 :=
      Nat.exists_eq_succ_of_ne_zero (Nat.ne_of_gt (Nat.zero_lt_of_lt hsplits.beyond))
    have hlt : index < p.entries.length := hsplits.inside
    refine ⟨index, List.mem_filter.mpr ⟨List.mem_range.mpr hlt, ?_⟩, rfl⟩
    refine Bool.and_eq_true_iff.mpr ⟨(Option.any_eq_true _ _).mpr
      ⟨_, List.getElem?_eq_getElem hlt, ?_⟩, hbudget⟩
    simp only [splits, Bool.and_eq_true, decide_eq_true_eq, Option.isNone_iff_eq_none,
      Bool.not_eq_true', Option.any_eq_false]
    refine ⟨⟨⟨hsplits.beyond, hsplits.answered⟩, ?_⟩, fun next hnext => ?_⟩
    · have hreceived := hsplits.received
      rw [Nat.add_sub_cancel, List.getElem?_eq_getElem hlt] at hreceived
      cases hentry : p.entries[index] with
      | continuation c => exact absurd (congrArg some hentry) (hreceived c)
      | message m => rfl
      | output o => rfl
    · cases next with
      | output o => exact absurd hnext (hsplits.whole o)
      | message m => rfl
      | continuation c => rfl

/-! The rounds at a boundary. -/

theorem continuation_of_recorded {index : Nat} {response : ChatMessage}
    (h : p.recorded.lookup index = some response) :
    ∃ c, p.entries[index]? = some (.continuation c) := by
  have hmem := Dict.mem_of_lookup h
  unfold recorded at hmem
  dsimp only at hmem
  split at hmem
  · cases hmem
  · have hcheckpoint := List.mem_of_mem_drop (List.of_mem_zip hmem).1
    obtain ⟨⟨entry, k⟩, hentry, rfl⟩ := List.mem_map.mp hcheckpoint
    obtain ⟨hzip, hcontinuation⟩ := List.mem_filter.mp hentry
    have hget := List.mem_zipIdx_iff_getElem?.mp hzip
    cases entry with
    | continuation c => exact ⟨c, hget⟩
    | message m => cases hcontinuation
    | output o => cases hcontinuation

/-- No answer of an earlier round follows the boundary. -/
def Begins (p : CompactInput) (boundary : Nat) : Prop :=
  ∀ entry, p.entries[boundary]? = some entry →
    (p.tailInput.kindOf boundary entry).isAnswer = false

/-- What the rounds wait for, the scan waits for. -/
theorem waiting_step {index : Nat} {entry : Entry} {pending waiting : List String}
    (hget : p.entries[index]? = some entry)
    (hids : (p.tailInput.kindOf index entry).callIds.Nodup)
    (hpairs : (p.tailInput.kindOf index entry).Pairs pending) (hsub : pending ⊆ waiting)
    (hnodup : pending.Nodup) :
    (p.tailInput.kindOf index entry).pendingAfter pending ⊆ p.pendingAfter index entry waiting ∧
      ((p.tailInput.kindOf index entry).pendingAfter pending).Nodup := by
  have herase : ∀ id (others : List String), pending ⊆ others →
      pending.erase id ⊆ others.filter (· ≠ id) := by
    intro id others hothers x hx
    rw [hnodup.mem_erase_iff] at hx
    exact List.mem_filter.mpr ⟨hothers hx.2, decide_eq_true hx.1⟩
  have hrecorded : entry.continuation? = none → p.recorded.lookup index = none := by
    intro hno
    cases hlookup : p.recorded.lookup index with
    | none => rfl
    | some response =>
      obtain ⟨c, hc⟩ := continuation_of_recorded hlookup
      cases hget.symm.trans hc
      cases hno
  cases entry with
  | continuation c =>
    have hkind : p.tailInput.kindOf index (.continuation c) = .opened (p.recorded.lookup index) := rfl
    rw [hkind] at hids ⊢
    refine ⟨?_, hids⟩
    unfold pendingAfter
    cases p.recorded.lookup index with
    | none => exact List.nil_subset _
    | some response => exact List.subset_append_right _ _
  | output o =>
    rw [pendingAfter, hrecorded rfl]
    exact ⟨herase o.callId waiting hsub, hnodup.erase _⟩
  | message m =>
    rw [pendingAfter, hrecorded rfl]
    dsimp only
    unfold TailInput.kindOf at hids hpairs ⊢
    dsimp only at hids hpairs ⊢
    split
    · exact ⟨herase _ _ fun x hx => List.mem_append_left _ (hsub hx), hnodup.erase _⟩
    · rename_i hanswer
      rw [if_neg hanswer] at hids
      split
      · rename_i hcalls
        rw [if_pos hcalls] at hids
        exact ⟨List.subset_append_right _ _, hids⟩
      · exact ⟨fun x hx => List.mem_append_left _ (hsub hx), hnodup⟩

theorem paired_waiting (front rest : List Entry) {n : Nat} {pending waiting : List String}
    (hget : ∀ k, p.entries[n + k]? = (front ++ rest)[k]?)
    (hids : ∀ k ∈ p.tailInput.kinds n (front ++ rest), k.callIds.Nodup)
    (hpaired : Paired pending (p.tailInput.kinds n (front ++ rest))) (hsub : pending ⊆ waiting)
    (hnodup : pending.Nodup) :
    ∃ pending', Paired pending' (p.tailInput.kinds (n + front.length) rest) ∧
      pending' ⊆ (front.zipIdx n).foldl
        (fun pending entry => p.pendingAfter entry.2 entry.1 pending) waiting := by
  induction front generalizing n pending waiting with
  | nil => exact ⟨pending, hpaired, hsub⟩
  | cons entry front ih =>
    have hhead : p.entries[n]? = some entry := hget 0
    obtain ⟨hsub', hnodup'⟩ :=
      waiting_step hhead (hids _ List.mem_cons_self) hpaired.1 hsub hnodup
    have hlength : n + (entry :: front).length = n + 1 + front.length := by
      rw [List.length_cons]
      omega
    rw [hlength]
    exact ih (fun k => by rw [Nat.add_assoc, Nat.add_comm 1 k]; exact hget (k + 1))
      (fun k hk => hids k (List.mem_cons_of_mem _ hk)) hpaired.2 hsub' hnodup'

theorem begins_of_answered (h : p.RoundsKept) {boundary : Nat}
    (hanswered : p.pendingAt boundary = []) : p.Begins boundary := by
  intro entry hentry
  obtain ⟨hlt, -⟩ := List.getElem?_eq_some_iff.mp hentry
  have hlength : (p.entries.take boundary).length = boundary :=
    List.length_take_of_le (Nat.le_of_lt hlt)
  obtain ⟨pending, hpaired, hsub⟩ := paired_waiting (p := p) (p.entries.take boundary)
    (p.entries.drop boundary) (n := 0)
    (fun k => by rw [List.take_append_drop, Nat.zero_add])
    (by rw [List.take_append_drop]; exact h.rounds.ids)
    (by rw [List.take_append_drop]; exact h.rounds.paired) (List.Subset.refl []) List.nodup_nil
  obtain rfl : pending = [] := List.subset_nil.mp (hanswered ▸ hsub)
  rw [hlength, Nat.zero_add] at hpaired
  have hget : p.entries.drop boundary = entry :: p.entries.drop (boundary + 1) := by
    rw [List.getElem?_eq_getElem hlt] at hentry
    rw [List.drop_eq_getElem_cons hlt, Option.some.inj hentry]
  rw [hget] at hpaired
  cases hkind : p.tailInput.kindOf boundary entry with
  | answered id out =>
    have hpairs : (p.tailInput.kindOf boundary entry).Pairs [] := hpaired.1
    rw [hkind] at hpairs
    cases hpairs
  | opened r => rfl
  | called r => rfl
  | plain m => rfl

theorem lastResponseIndex_lt {index : Nat} (h : p.lastResponseIndex = some index) :
    index < p.entries.length :=
  List.mem_range.mp (List.mem_reverse.mp (List.mem_of_find?_eq_some h))

theorem portableIndex_spec {index : Nat} (h : p.portableIndex = some index) :
    ∃ round m, p.unobservedToolRound = some round ∧ p.entries[index]? = some (.message m) ∧
      m.same round = true := by
  obtain ⟨round, hround, hfind⟩ := Option.bind_eq_some_iff.mp h
  have hhit := List.find?_some hfind
  rw [Bool.and_eq_true] at hhit
  obtain ⟨m, hm, hsame⟩ := (Option.any_eq_true _ _).mp hhit.2
  obtain ⟨entry, hentry, hmessage⟩ := Option.bind_eq_some_iff.mp hm
  cases entry with
  | message m' =>
    cases hmessage
    exact ⟨round, m, hround, hentry, hsame⟩
  | output o => cases hmessage
  | continuation c => cases hmessage

/-- What must be kept begins at the Host observation, at the last response when it makes
calls, or nowhere. -/
theorem keepFrom_cases (p : CompactInput) :
    p.portableIndex = some p.keepFrom ∨
      (p.lastResponseIndex = some p.keepFrom ∧ ∃ m, p.lastResponse = some m ∧ m.toolCalls ≠ []) ∨
      p.keepFrom = p.entries.length := by
  have hcalled : ∀ keep, (if p.lastResponse.any fun m => m.toolCalls ≠ [] then p.lastResponseIndex
      else none).getD p.entries.length = keep →
      (p.lastResponseIndex = some keep ∧ ∃ m, p.lastResponse = some m ∧ m.toolCalls ≠ []) ∨
        keep = p.entries.length := by
    rintro keep rfl
    split
    · rename_i hany
      obtain ⟨m, hm, hcalls⟩ := (Option.any_eq_true _ _).mp hany
      cases hlast : p.lastResponseIndex with
      | none => exact .inr rfl
      | some index => exact .inl ⟨rfl, m, hm, of_decide_eq_true hcalls⟩
    · exact .inr rfl
  unfold keepFrom
  dsimp only
  split
  · rename_i index hportable
    split
    · exact .inl hportable
    · exact .inr (hcalled _ rfl)
  · exact .inr (hcalled _ rfl)

theorem keepFrom_le (p : CompactInput) : p.keepFrom ≤ p.entries.length := by
  obtain hportable | ⟨hlast, -⟩ | hend := keepFrom_cases p
  · obtain ⟨-, m, -, hget, -⟩ := portableIndex_spec hportable
    exact Nat.le_of_lt (List.getElem?_eq_some_iff.mp hget).1
  · exact Nat.le_of_lt (lastResponseIndex_lt hlast)
  · exact Nat.le_of_eq hend

theorem begins_keepFrom (h : p.RoundsKept) : p.Begins p.keepFrom := by
  intro entry hentry
  obtain hportable | ⟨hlast, response, hresponse, hcalls⟩ | hend := keepFrom_cases p
  · obtain ⟨round, m, hround, hget, hsame⟩ := portableIndex_spec hportable
    cases hentry.symm.trans hget
    have hid : m.toolCallId = round.toolCallId :=
      congrArg MessageKey.toolCallId (messageKey_of_same hsame)
    have hno := h.observation round hround
    rw [← hid] at hno
    unfold TailInput.kindOf
    dsimp only
    rw [hno]
    simp only [Bool.false_eq_true, if_false]
    split <;> rfl
  · cases entry with
    | continuation c => rfl
    | message m =>
      have hrecorded : p.recorded.lookup p.keepFrom = none := by
        cases hlookup : p.recorded.lookup p.keepFrom with
        | none => rfl
        | some r =>
          obtain ⟨c, hc⟩ := continuation_of_recorded hlookup
          cases hentry.symm.trans hc
      have hm : response = m := by
        rw [lastResponse, hlast, Option.bind_some, hrecorded, hentry] at hresponse
        exact (Option.some.inj hresponse).symm
      subst hm
      have hno : ¬ truthy response.toolCallId = true := fun htruthy =>
        hcalls (h.calls response (List.mem_of_getElem? hentry) htruthy)
      unfold TailInput.kindOf
      dsimp only
      rw [if_neg hno, if_pos hcalls]
      rfl
    | output o =>
      -- The last response is a checkpoint or a message.
      rw [lastResponseIndex] at hlast
      have hhit := List.find?_some hlast
      rw [Bool.and_eq_true, isResponse, hentry, Bool.or_eq_true] at hhit
      obtain hsome | hnone := hhit.2
      · obtain ⟨r, hr⟩ := Option.isSome_iff_exists.mp hsome
        obtain ⟨c, hc⟩ := continuation_of_recorded hr
        cases hentry.symm.trans hc
      · cases hnone
  · rw [hend, List.getElem?_eq_none (Nat.le_refl _)] at hentry
    cases hentry

/-! The tails. -/

theorem head_kinds (boundary : Nat) :
    (p.tailInput.kinds boundary (p.entries.drop boundary)).head? =
      p.entries[boundary]?.map (p.tailInput.kindOf boundary) := by
  rw [List.head?_eq_getElem?, getElem?_kinds, List.getElem?_drop, Nat.add_zero]

theorem Begins.all {boundary : Nat} (h : p.Begins boundary) :
    (p.tailInput.kinds boundary (p.entries.drop boundary)).head?.all (! Kind.isAnswer ·) := by
  rw [head_kinds]
  cases hentry : p.entries[boundary]? with
  | none => rfl
  | some entry => simp [h entry hentry]

theorem RoundsKept.closed (h : p.RoundsKept) {boundary : Nat} (hb : p.Begins boundary)
    (hle : boundary ≤ p.entries.length) :
    Closed p.tailInput boundary (p.entries.drop boundary) := by
  have hlength : (p.entries.take boundary).length = boundary := List.length_take_of_le hle
  have hrounds :
      Closed p.tailInput 0 (p.entries.take boundary ++ p.entries.drop boundary) := by
    rw [List.take_append_drop]
    exact h.rounds
  have hsplit := hrounds.split
  rw [hlength, Nat.zero_add] at hsplit
  exact (hsplit hb.all).1

/-- The items of the index behind a boundary. -/
def Serves (p : CompactInput) (items kept : List RetainedItem) (boundary : Nat) : Prop :=
  Ordered items ∧ (∀ item ∈ items, item.start < p.entries.length) ∧
    (∀ item ∈ items, Built p.tailInput item) ∧ itemsFrom items boundary = kept

theorem nativeItems_serve (h : p.RoundsKept) {first boundary : Nat} (hfirst : p.Begins first)
    (hb : p.Begins boundary) (hle : first ≤ boundary) (hlength : boundary ≤ p.entries.length) :
    ∃ items kept, p.nativeItems first = .ok items ∧ p.nativeItems boundary = .ok kept ∧
      p.Serves items kept boundary := by
  have hclosed := h.closed hfirst (Nat.le_trans hle hlength)
  obtain ⟨items, hitems, hordered, hbounds⟩ := hclosed.items
  have hsplit : (p.entries.drop first).take (boundary - first) ++ p.entries.drop boundary =
      p.entries.drop first := by
    have hdrop : p.entries.drop boundary = (p.entries.drop first).drop (boundary - first) := by
      rw [List.drop_drop, Nat.add_sub_cancel' hle]
    rw [hdrop, List.take_append_drop]
  have hfront : first + ((p.entries.drop first).take (boundary - first)).length = boundary := by
    rw [List.length_take, List.length_drop]
    omega
  have hrounds : Closed p.tailInput first
      ((p.entries.drop first).take (boundary - first) ++ p.entries.drop boundary) := by
    rw [hsplit]
    exact hclosed
  have hrest := hrounds.split
  rw [hfront] at hrest
  obtain ⟨-, items', kept, hitems', hkept, hfilter⟩ := hrest hb.all
  rw [hsplit] at hitems'
  cases hitems.symm.trans hitems'
  refine ⟨items, kept, by rw [nativeItems, hitems], by rw [nativeItems, hkept], hordered,
    fun item hitem => ?_, nativeTailItems_built hitems, hfilter⟩
  have := (hbounds item hitem).2
  rw [List.length_drop] at this
  omega

theorem mem_rawItems {first : Nat} {item : RetainedItem} (h : item ∈ p.rawItems first) :
    Built p.tailInput item ∧ item.start < p.entries.length := by
  obtain ⟨⟨entry, index⟩, hentry, hitem⟩ := List.mem_filterMap.mp h
  obtain ⟨m, -, rfl⟩ := Option.map_eq_some_iff.mp hitem
  have hget := List.mem_zipIdx_iff_getElem?.mp (List.mem_of_mem_filter hentry)
  exact ⟨built_item index m, (List.getElem?_eq_some_iff.mp hget).1⟩

theorem ordered_rawItems (first : Nat) : Ordered (p.rawItems first) := by
  have hpositions : (p.entries.zipIdx).Pairwise fun a b => a.2 < b.2 := by
    rw [← List.pairwise_map (f := Prod.snd) (R := (· < ·)), List.zipIdx_map_snd]
    exact List.pairwise_lt_range'
  refine List.pairwise_filterMap.mpr ((hpositions.filter _).imp fun {a b} hab => ?_)
  intro item hitem other hother
  obtain ⟨m, -, rfl⟩ := Option.map_eq_some_iff.mp hitem
  obtain ⟨m', -, rfl⟩ := Option.map_eq_some_iff.mp hother
  exact hab

theorem rawItems_serve {first boundary : Nat} (hle : first ≤ boundary) :
    p.Serves (p.rawItems first) (p.rawItems boundary) boundary := by
  refine ⟨ordered_rawItems first, fun item hitem => (mem_rawItems hitem).2,
    fun item hitem => (mem_rawItems hitem).1, ?_⟩
  unfold itemsFrom rawItems
  rw [List.filter_filterMap, List.filterMap_filter, List.filterMap_filter]
  refine List.filterMap_congr fun entry _ => ?_
  by_cases hb : boundary ≤ entry.2
  · have hfirst := Nat.le_trans hle hb
    cases entry.1.message? <;> simp [hb, hfirst, TailInput.item]
  · have hlt : first ≤ entry.2 → entry.2 < boundary := fun _ => Nat.lt_of_not_le hb
    cases entry.1.message? with
    | none => simp
    | some m => simpa [hb, TailInput.item] using hlt

theorem message_rawItems (first : Nat) :
    (p.rawItems first).map (·.message) = (p.entries.drop first).filterMap Entry.message? := by
  unfold rawItems
  rw [List.map_filterMap]
  have hmessages : ∀ entry : Entry × Nat,
      Option.map (·.message) (entry.1.message?.map fun m => p.tailInput.item entry.2 m) =
        entry.1.message? := by
    intro entry
    cases entry.1.message? <;> rfl
  simp only [hmessages]
  have hdrop : ∀ (entries : List Entry) (n : Nat),
      ((entries.zipIdx n).filter fun entry => first ≤ entry.2).filterMap (fun entry =>
        entry.1.message?) = (entries.drop (first - n)).filterMap Entry.message? := by
    intro entries
    induction entries with
    | nil => intro n; simp
    | cons e entries ih =>
      intro n
      rw [List.zipIdx_cons]
      by_cases hn : first ≤ n
      · have hzero : first - n = 0 := by omega
        have hnext := ih (n + 1)
        rw [show first - (n + 1) = 0 by omega, List.drop_zero] at hnext
        rw [List.filter_cons_of_pos (by simpa using hn), hzero, List.drop_zero, List.filterMap_cons,
          List.filterMap_cons, hnext]
      · rw [List.filter_cons_of_neg (by simpa using hn), ih (n + 1),
          show first - n = first - (n + 1) + 1 by omega, List.drop_succ_cons]
  exact hdrop p.entries 0

/-! The estimates. -/

theorem estimate_prompt (boundary : Nat) :
    (RequestTokenCounter.scan text p.settings (p.entries.take boundary)).estimate
      (messageTokenCost text p.instruction) =
    estimateRequestTokens text (p.settings.withTranscript
      (request (p.entries.take boundary ++ [.message p.instruction]))) := by
  rw [estimate_messageTokenCost, ← estimate_scan, RequestTokenCounter.scan,
    RequestTokenCounter.scan, List.foldl_append]
  rfl

theorem sum_costs (messages : List ChatMessage) :
    (messages.map (messageTokenCost text)).sum = messagesCost text messages :=
  sum_messageTokenCost text messages

theorem estimate_continued (settings : ChatRequest) (entries : List Entry)
    (messages : List ChatMessage) :
    (RequestTokenCounter.scan text settings entries).estimateMessages
      (messages.map (messageTokenCost text)).sum =
    estimateRequestTokens text { settings with
      messages := messages, continuation := none, continuationItems := [] } := by
  rw [counter_eq, RequestTokenCounter.estimateMessages, estimateRequestTokens,
    inputTokenCost_requestInput, sum_costs]
  change _ = ((RequestTokenCounter.new text settings).base + _ + 0 + 0).tokens
  rw [add_zero, add_zero]

theorem budgetedAt_iff (boundary : Nat) : p.budgetedAt text boundary = true ↔
    ∀ budget, p.inputBudget = some budget →
      (estimateRequestTokens text (p.settings.withTranscript
        (request (p.entries.take boundary ++ [.message p.instruction]))) : Int) ≤ budget := by
  unfold budgetedAt budgeted
  cases p.inputBudget with
  | none => simp
  | some budget =>
    simp only [Option.map_some, decide_eq_true_eq, Option.some.injEq, forall_eq']
    rw [estimate_prompt]

/-- The index decides as the whole request does. -/
theorem fitsRetained_iff {items kept : List RetainedItem} {boundary : Nat} (budget : Int)
    (h : p.Serves items kept (min boundary p.keepFrom)) :
    p.fitsRetained text (RequestTokenCounter.scan text p.settings p.entries) budget
      (TailIndex.new text items p.entries.length p.initial p.retainedPublic)
      (min boundary p.keepFrom) = true ↔
    (estimateRequestTokens text (p.continuedRequest kept) : Int) ≤ budget := by
  obtain ⟨hordered, hbelow, hbuilt, rfl⟩ := h
  have hkeep := keepFrom_le p
  have hmin := Nat.min_le_right boundary p.keepFrom
  have hcost : (p.initial.map (messageTokenCost text)).sum +
      (TailIndex.new text items p.entries.length p.initial p.retainedPublic).publicCost.getD
        (min boundary p.keepFrom) 0 +
      (TailIndex.new text items p.entries.length p.initial p.retainedPublic).requiredCost.getD
        (min boundary p.keepFrom) 0 =
      ((p.initial ++ publicBeside p.initial p.retainedPublic
        (itemsFrom items (min boundary p.keepFrom)) ++
        (requiredItems p.keepFrom (itemsFrom items (min boundary p.keepFrom))).map
          (·.message)).map (messageTokenCost text)).sum := by
    rw [publicCost_new text hordered hbelow _ _ (Nat.le_trans hmin hkeep),
      requiredCost_new (t := p.tailInput) text hbuilt hkeep _ _ hmin, List.map_append,
      List.map_append, List.sum_append, List.sum_append, List.map_map]
    rfl
  unfold fitsRetained
  rw [hcost, estimate_continued, decide_eq_true_eq]
  rfl

/-! The choice. -/

theorem isNative_eq (boundary : Nat) :
    p.isNative boundary = (p.entries.drop boundary).any fun e => !e.isMessage :=
  getD_nativeFrom p.entries boundary

theorem native_of_le {first boundary : Nat} (hle : first ≤ boundary)
    (h : p.isNative boundary = true) : p.isNative first = true := by
  rw [isNative_eq] at h ⊢
  obtain ⟨e, he, hno⟩ := List.any_eq_true.mp h
  have hdrop : p.entries.drop boundary = (p.entries.drop first).drop (boundary - first) := by
    rw [List.drop_drop, Nat.add_sub_cancel' hle]
  exact List.any_eq_true.mpr ⟨e, List.mem_of_mem_drop (hdrop ▸ he), hno⟩

theorem exists_of_isNative {boundary : Nat} (h : p.isNative boundary = true) :
    ∃ e ∈ p.entries, e.isMessage = false := by
  rw [isNative_eq] at h
  obtain ⟨e, he, hno⟩ := List.any_eq_true.mp h
  exact ⟨e, List.mem_of_mem_drop he, by simpa using hno⟩

theorem begins_min (h : p.RoundsKept) {boundary : Nat} (hs : p.Splits boundary) :
    p.Begins (min boundary p.keepFrom) := by
  rcases Nat.le_total boundary p.keepFrom with hle | hle
  · rw [Nat.min_eq_left hle]
    exact begins_of_answered h hs.answered
  · rw [Nat.min_eq_right hle]
    exact begins_keepFrom h

/-- Whatever an earlier boundary begins with, its index serves the later one. -/
theorem index_serves (h : (∃ e ∈ p.entries, e.isMessage = false) → p.RoundsKept)
    {first boundary : Nat} (hfirst : p.Splits first) (hs : p.Splits boundary)
    (hle : first ≤ boundary) :
    ∃ kept, p.keptItems boundary = .ok kept ∧
      if p.isNative (min boundary p.keepFrom) then
        ∃ items, p.nativeItems (min first p.keepFrom) = .ok items ∧
          p.Serves items kept (min boundary p.keepFrom)
      else p.Serves (p.rawItems (min first p.keepFrom)) kept (min boundary p.keepFrom) := by
  have hmin : min first p.keepFrom ≤ min boundary p.keepFrom := by omega
  have hlength : min boundary p.keepFrom ≤ p.entries.length :=
    Nat.le_trans (Nat.min_le_right _ _) (keepFrom_le p)
  unfold keptItems
  dsimp only
  rw [← isNative_eq]
  by_cases hnative : p.isNative (min boundary p.keepFrom) = true
  · rw [if_pos hnative]
    have hrounds := h (exists_of_isNative hnative)
    obtain ⟨items, kept, hitems, hkept, hserves⟩ :=
      nativeItems_serve hrounds (begins_min hrounds hfirst) (begins_min hrounds hs) hmin hlength
    refine ⟨kept, hkept, ?_⟩
    rw [if_pos hnative]
    exact ⟨items, hitems, hserves⟩
  · rw [if_neg hnative]
    refine ⟨_, rfl, ?_⟩
    rw [if_neg hnative]
    exact rawItems_serve hmin

/-- The plan at a boundary, with what is kept behind it. -/
def planAt (p : CompactInput) (boundary : Nat) (kept : List RetainedItem) : ExecutionCompactPlan :=
  p.plan boundary (publicBeside p.initial p.retainedPublic kept ++ kept.map (·.message))

theorem unbudgeted_eq {boundary : Nat} {kept : List RetainedItem}
    (h : p.keptItems boundary = .ok kept) :
    p.unbudgeted boundary = .ok (p.planAt boundary kept) := by
  unfold keptItems at h
  dsimp only at h
  rw [← isNative_eq] at h
  unfold unbudgeted
  dsimp only
  split at h
  · rename_i hnative
    rw [if_pos hnative, h]
    rfl
  · rename_i hnative
    rw [if_neg hnative, ← message_rawItems]
    cases h
    rfl

/-- By the indexes every candidate is weighed and read as it is on its own. -/
theorem selected_spec (h : (∃ e ∈ p.entries, e.isMessage = false) → p.RoundsKept)
    {first boundary : Nat} (hfirst : p.Splits first) (hs : p.Splits boundary)
    (hle : first ≤ boundary) (budget : Int) {native : TailIndex}
    (hnative : p.nativeIndex text (min first p.keepFrom) = .ok native) :
    ∃ kept, p.keptItems boundary = .ok kept ∧
      (p.fitsRetained text (RequestTokenCounter.scan text p.settings p.entries) budget
        (p.selected text (min first p.keepFrom) native boundary) (min boundary p.keepFrom) = true ↔
        (estimateRequestTokens text (p.continuedRequest kept) : Int) ≤ budget) ∧
      p.plan boundary ((p.selected text (min first p.keepFrom) native boundary).retained
        (min boundary p.keepFrom)) = p.planAt boundary kept := by
  obtain ⟨kept, hkept, hserves⟩ := index_serves h hfirst hs hle
  obtain ⟨items, hindex, hserve⟩ : ∃ items, p.selected text (min first p.keepFrom) native boundary =
      TailIndex.new text items p.entries.length p.initial p.retainedPublic ∧
        p.Serves items kept (min boundary p.keepFrom) := by
    unfold selected
    split at hserves
    · rename_i hb
      obtain ⟨items, hitems, hserve⟩ := hserves
      have hmin : min first p.keepFrom ≤ min boundary p.keepFrom := by omega
      rw [nativeIndex, if_pos (native_of_le hmin hb), hitems] at hnative
      cases hnative
      exact ⟨items, if_pos hb, hserve⟩
    · rename_i hb
      exact ⟨_, if_neg hb, hserves⟩
  rw [hindex]
  refine ⟨kept, hkept, fitsRetained_iff text budget hserve, ?_⟩
  obtain ⟨hordered, -, -, rfl⟩ := hserve
  rw [retained_new text hordered]
  rfl

theorem nativeIndex_ok (h : (∃ e ∈ p.entries, e.isMessage = false) → p.RoundsKept) {first : Nat}
    (hfirst : p.Splits first) :
    ∃ native, p.nativeIndex text (min first p.keepFrom) = .ok native := by
  obtain ⟨kept, -, hserves⟩ := index_serves h hfirst hfirst (Nat.le_refl _)
  unfold nativeIndex
  split at hserves
  · rename_i hnative
    obtain ⟨items, hitems, -⟩ := hserves
    exact ⟨_, by rw [if_pos hnative, hitems]; rfl⟩
  · rename_i hnative
    exact ⟨_, if_neg hnative⟩

/-- What the indexed search answers: the latest boundary that goes on within the budget. -/
theorem indexed_spec (h : (∃ e ∈ p.entries, e.isMessage = false) → p.RoundsKept) (budget : Int)
    {candidates : List Nat} (hsplits : ∀ b ∈ candidates, p.Splits b)
    (hordered : candidates.Pairwise (· < ·)) (hne : candidates ≠ []) :
    (∃ b ∈ candidates, ∃ kept, p.keptItems b = .ok kept ∧
      (estimateRequestTokens text (p.continuedRequest kept) : Int) ≤ budget ∧
      (∀ b' ∈ candidates, ∀ kept', p.keptItems b' = .ok kept' →
        (estimateRequestTokens text (p.continuedRequest kept') : Int) ≤ budget → b' ≤ b) ∧
      p.indexed text (RequestTokenCounter.scan text p.settings p.entries) budget candidates =
        .ok (p.planAt b kept)) ∨
    ((∀ b ∈ candidates, ∀ kept, p.keptItems b = .ok kept →
      ¬ (estimateRequestTokens text (p.continuedRequest kept) : Int) ≤ budget) ∧
      p.indexed text (RequestTokenCounter.scan text p.settings p.entries) budget candidates =
        .error (.workCapacity "model_request_capacity")) := by
  obtain ⟨first, rest, rfl⟩ := List.exists_cons_of_ne_nil hne
  have hfirst := hsplits first List.mem_cons_self
  have hle : ∀ b ∈ first :: rest, first ≤ b := by
    intro b hb
    obtain rfl | hb := List.mem_cons.mp hb
    · exact Nat.le_refl _
    · exact Nat.le_of_lt ((List.pairwise_cons.mp hordered).1 b hb)
  obtain ⟨native, hnative⟩ := nativeIndex_ok text h hfirst
  have hspec := fun b (hb : b ∈ first :: rest) =>
    selected_spec text h hfirst (hsplits b hb) (hle b hb) budget hnative
  unfold indexed
  dsimp only
  rw [List.headD_cons, hnative, ok_bind]
  split
  · rename_i b hfind
    obtain ⟨hb, hfits, hgreatest⟩ := greatest_of_find? hordered hfind
    obtain ⟨kept, hkept, hiff, hplan⟩ := hspec b hb
    refine .inl ⟨b, hb, kept, hkept, hiff.mp hfits, fun b' hb' kept' hkept' hfits' => ?_,
      congrArg Except.ok hplan⟩
    obtain ⟨kept'', hkept'', hiff', -⟩ := hspec b' hb'
    cases hkept'.symm.trans hkept''
    exact hgreatest b' hb' (hiff'.mpr hfits')
  · rename_i hfind
    refine .inr ⟨fun b hb kept hkept hfits => ?_, rfl⟩
    obtain ⟨kept', hkept', hiff, -⟩ := hspec b hb
    cases hkept.symm.trans hkept'
    exact List.find?_eq_none.mp hfind b (List.mem_reverse.mpr hb) (hiff.mpr hfits)

/-- The boundaries from which the plan could go on. -/
def Selectable (p : CompactInput) (boundary : Nat) : Prop :=
  ∃ kept, p.keptItems boundary = .ok kept ∧ p.Fits text boundary kept

theorem selectable_iff {boundary : Nat} {kept : List RetainedItem}
    (hkept : p.keptItems boundary = .ok kept) : p.Selectable text boundary ↔
      boundary ∈ p.candidatesBelow text p.entries.length ∧ p.pendingAt p.entries.length = [] ∧
        ∀ budget, p.inputBudget = some budget →
          (estimateRequestTokens text (p.continuedRequest kept) : Int) ≤ budget := by
  rw [mem_candidates, budgetedAt_iff]
  constructor
  · rintro ⟨kept', hkept', hfits⟩
    cases hkept.symm.trans hkept'
    exact ⟨⟨hfits.splits, hfits.prompt⟩, hfits.finished, hfits.continued⟩
  · rintro ⟨⟨hs, hprompt⟩, hfinished, hcontinued⟩
    exact ⟨kept, hkept, hs, hfinished, hprompt, hcontinued⟩

/-- Without calls left over and with a candidate, the planner searches or takes the last one. -/
theorem executionCompactPlan_eq (p : CompactInput) : p.executionCompactPlan text =
    if h : p.pendingAt p.entries.length ≠ [] ∨ p.candidatesBelow text p.entries.length = [] then
      .error (.workCapacity "model_request_capacity")
    else match p.inputBudget with
      | some budget => p.indexed text (RequestTokenCounter.scan text p.settings p.entries) budget
          (p.candidatesBelow text p.entries.length)
      | none => p.unbudgeted ((p.candidatesBelow text p.entries.length).getLast
          fun hnil => h (.inr hnil)) := by
  unfold executionCompactPlan
  dsimp only
  rw [scan_eq]
  unfold scanAt
  dsimp only
  rw [List.take_length]
  by_cases h : p.pendingAt p.entries.length ≠ [] ∨ p.candidatesBelow text p.entries.length = []
  · rw [if_pos h, dif_pos h]
  · rw [if_neg h, dif_neg h]
    cases p.inputBudget with
    | some budget => rfl
    | none =>
      have hne : p.candidatesBelow text p.entries.length ≠ [] := fun hnil => h (.inr hnil)
      have hlast : (p.candidatesBelow text p.entries.length).getLastD 0 =
          (p.candidatesBelow text p.entries.length).getLast hne := by
        rw [List.getLastD_eq_getLast?, List.getLast?_eq_some_getLast hne, Option.getD_some]
      change p.unbudgeted _ = _
      rw [hlast]

def twoRounds : CompactInput where
  entries := closedRounds
  initial := [{ role := "user", content := some "task" }]
  mainRequest := { messages := [] }
  inputBudget := none
  prepare := id
  retainedPublic := [{ role := "user", content := some "task" }]
  responses := [toolRound "a", toolRound "c"]

theorem twoRounds_kept : twoRounds.RoundsKept where
  rounds := ⟨by decide +kernel, by decide +kernel, by decide +kernel⟩
  calls := by simp [twoRounds, closedRounds, truthy]
  observation := by simp [twoRounds]

end CompactInput

end Yuki.Compaction

import Yuki.Agents.Projection
import Yuki.Agents.Receipts

/-! The connector and the server agree on when an observed operation is over, as
long as no event or response ends it without a final status. -/

namespace Yuki.Connector

/-- The status that facts leave on a receipt which is not over. -/
def nextStatus (previous facts : Json) : Json :=
  (facts.get? "status").getD (previous.get "status")

/-- A fold leaves nothing pending only together with a final status. -/
def foldSettles (previous facts : Json) : Bool :=
  !decide (facts.get "pending" = .bool false) || terminal (nextStatus previous facts)

/-- The response keeps what events have projected before it. -/
def keepsProjection (state : Json) : Bool :=
  (state.getD "state_sequence" (.int 0)).truthy &&
    decide (state.get "reason" ≠ .str "original_dispatch_not_confirmed")

/-- The response says that the operation is over. -/
def Response.ended : Response → Bool
  | .error _ => true
  | .result r => terminal (r.get "status")

/-- The receipt of an observed operation: pending is false exactly on a final status. -/
structure Agrees (r : Json) : Prop where
  pending : r.has "pending" = true
  ended : r.get "pending" = .bool false ↔ terminal (r.get "status") = true

variable {r r' facts result : Json} {n : Nat}

theorem get_of_get? {j : Json} {k : String} {v : Json} (h : j.get? k = some v) : j.get k = v := by
  rw [Json.get_eq, h]
  rfl

theorem nextStatus_eq (h : r'.get? "status" = (facts.get? "status").or (r.get? "status")) :
    r'.get "status" = nextStatus r facts := by
  rw [Json.get_eq, h, nextStatus, Json.get_eq]
  cases facts.get? "status" with
  | none => rfl
  | some v => rfl

/-- A receipt that was not over folds to one that agrees exactly under `foldSettles`. -/
theorem agrees_fold (h : foldReceipt r facts n = .ok r') (ha : Agrees r)
    (hr : terminal (r.get "status") = false) :
    (Agrees r' ↔ foldSettles r facts = true) ∧ r'.get "status" = nextStatus r facts := by
  rcases foldReceipt_cases h with ⟨ht, -⟩ | ⟨-, -, hstatus, hpending, -⟩
  · rw [hr] at ht
    cases ht
  have hnext := nextStatus_eq hstatus
  refine ⟨?_, hnext⟩
  obtain ⟨v, hv⟩ := has_eq_true.mp ha.pending
  have hopen : v ≠ .bool false := by
    intro he
    have hover := ha.ended.mp (by rw [get_of_get? hv, he])
    rw [hr] at hover
    cases hover
  rw [hnext] at hpending
  unfold foldSettles
  cases ht : terminal (nextStatus r facts) with
  | true =>
    rw [ht, if_pos rfl] at hpending
    refine iff_of_true ⟨has_eq_true.mpr ⟨_, hpending⟩, ?_⟩ (by simp)
    rw [get_of_get? hpending, hnext, ht]
    exact iff_of_true rfl rfl
  | false =>
    rw [ht, if_neg Bool.false_ne_true, hv] at hpending
    constructor
    · intro hagree
      have hne : r'.get "pending" ≠ .bool false := by
        intro he
        have hover := hagree.ended.mp he
        rw [hnext, ht] at hover
        cases hover
      cases hf : facts.get? "pending" with
      | none => simp [Json.get_eq, hf]
      | some w =>
        rw [hf, Option.some_or] at hpending
        rw [get_of_get? hpending] at hne
        simp [Json.get_eq, hf, hne]
    · intro hsettles
      have hne : facts.get "pending" ≠ .bool false := by simpa using hsettles
      obtain ⟨w, hw, hwne⟩ : ∃ w, r'.get? "pending" = some w ∧ w ≠ .bool false := by
        cases hf : facts.get? "pending" with
        | none =>
          rw [hf, Option.none_or] at hpending
          exact ⟨v, hpending, hopen⟩
        | some w =>
          rw [hf, Option.some_or] at hpending
          rw [get_of_get? hf] at hne
          exact ⟨w, hpending, hne⟩
      refine ⟨has_eq_true.mpr ⟨w, hw⟩, ?_⟩
      rw [get_of_get? hw, hnext, ht]
      exact iff_of_false hwne Bool.false_ne_true

theorem agrees_of_terminal (h : Kept r) (ht : terminal (r.get "status") = true) : Agrees r := by
  have hp := h.settled ht
  exact ⟨has_eq_true.mpr ⟨_, hp⟩, iff_of_true (get_of_get? hp) ht⟩

theorem agrees_congr (h : Agrees r) (hs : r'.get? "status" = r.get? "status")
    (hp : r'.get? "pending" = r.get? "pending") : Agrees r' := by
  refine ⟨?_, ?_⟩
  · rw [Json.has_eq, hp, ← Json.has_eq]
    exact h.pending
  · rw [get_congr hs, get_congr hp]
    exact h.ended

theorem agrees_initialReceipt {c : Command} (h : c.observed = true) : Agrees (initialReceipt c) := by
  have hkeys : ∀ (keys : List String) (r : Json), "pending" ∉ keys →
      (keys.foldl (fun result key =>
        if c.fields.get key ≠ .null then result.set key (c.fields.get key) else result) r).get?
          "pending" = r.get? "pending" := by
    intro keys
    induction keys with
    | nil => exact fun _ _ => rfl
    | cons key keys ih =>
      intro r hk
      obtain ⟨hne, hk⟩ := List.ne_and_not_mem_of_not_mem_cons hk
      rw [List.foldl_cons, ih _ hk]
      split
      · simp [hne]
      · rfl
  have hp : (initialReceipt c).get? "pending" = some (.bool true) := by
    unfold initialReceipt
    rw [hkeys _ _ (by decide), if_pos h, Json.get?_set, if_pos rfl]
  refine ⟨has_eq_true.mpr ⟨_, hp⟩, ?_⟩
  rw [get_of_get? hp, (Journal.kept_initialReceipt c).2.1]
  exact iff_of_false (by decide) (by decide)

/-! The journal, one operation at a time. -/

namespace Journal

variable {j j' : Journal} {key : String}

/-- The call ends the operation, or leaves something pending on it. -/
def settles (j : Journal) (key : String) : JournalAction → Bool
  | .append event =>
    match event.operationId, j.operations.get? key with
    | some original, some row =>
      decide (original ≠ key) || terminal (row.receipt.get "status") ||
        let dropped := decide (j.stale event = .ok true) || (j.events.get? event.eventId).isSome
        let next := terminal (nextStatus row.receipt (eventFacts event))
        if event.kind = "completed" then !dropped && next
        else dropped || foldSettles row.receipt (eventFacts event)
    | _, _ => true
  | .complete original response =>
    match j.operations.get? key with
    | some row =>
      decide (original ≠ key) || terminal (row.receipt.get "status") ||
        if keepsProjection row.receipt then !response.ended
        else foldSettles row.receipt (responseState response)
    | none => true
  | _ => true

/-- A completed event, an error or a final response for the operation. -/
def concludes (key : String) : JournalAction → Bool
  | .append event => decide (event.operationId = some key ∧ event.kind = "completed")
  | .complete original response => decide (original = key) && response.ended
  | _ => false

/-- The receipt of an observed operation agrees, and a concluding call left it final. -/
def Settled (j : Journal) (key : String) (concluded : Bool) : Prop :=
  ∀ row, j.operations.get? key = some row → row.command.observed = true →
    Agrees row.receipt ∧ (concluded = true → Connector.terminal (row.receipt.get "status") = true)

theorem not_detach_of_observed {c : Command} (h : c.observed = true) :
    c.action ≠ "detach" ∧ c.action ≠ "cancel" := by
  unfold Command.observed observedActions at h
  constructor
  · rintro he
    rw [he] at h
    exact absurd h (by decide)
  · rintro he
    rw [he] at h
    exact absurd h (by decide)

theorem closes_of_observed {c : Command} (h : c.observed = true) (result : Json) :
    closes c result = none := by
  obtain ⟨hd, hc⟩ := not_detach_of_observed h
  unfold closes
  rw [if_neg fun hh => hd hh.1, if_neg fun hh => hc hh.1]

theorem get?_closeOriginal {command : Command} (h : j.closeOriginal command result n = .ok j')
    (hc : closes command result ≠ some key) :
    j'.operations.get? key = j.operations.get? key := by
  have hwrite : ∀ original receipt observing, original ≠ key →
      (j.write original receipt observing).operations.get? key = j.operations.get? key := by
    intro original receipt observing hne
    rw [get?_write]
    cases hrow : j.operations.get? key with
    | none => rfl
    | some row =>
      have hid : row.command.id ≠ original := fun he =>
        hne (he.symm.trans (Table.get?_eq_some.mp hrow).2)
      simp [hid]
  rcases closeOriginal_cases h with ⟨-, rfl⟩ |
    ⟨original, facts, state, hcloses, -, -, ⟨-, rfl⟩ | ⟨-, rfl⟩⟩
  · rfl
  · exact hwrite _ _ _ fun he => hc (he ▸ hcloses)
  · exact hwrite _ _ _ fun he => hc (he ▸ hcloses)

/-- A final receipt agrees, and stays final. -/
theorem settled_of_terminal (digest : Json → Option String) (hw : j.Wf) {a : JournalAction}
    (hl : Lawful a) {row : OperationRow} (hrow : j.operations.get? key = some row)
    (ht : Connector.terminal (row.receipt.get "status") = true) {b : Bool} :
    (j.call digest a).Settled key b := by
  obtain ⟨hw', hlater⟩ := wf_call digest hw hl
  intro row' hrow' _
  obtain ⟨hs, -, -⟩ := hlater.terminal hrow hrow' ht
  have ht' : Connector.terminal (row'.receipt.get "status") = true := by
    rw [get_congr hs]
    exact ht
  exact ⟨agrees_of_terminal (hw'.rows key row' hrow').kept ht', fun _ => ht'⟩

theorem settled_row {row : OperationRow} {b : Bool} (hrow : j.operations.get? key = some row)
    (ho : row.command.observed = true) : j.Settled key b ↔
      Agrees row.receipt ∧ (b = true → Connector.terminal (row.receipt.get "status") = true) := by
  constructor
  · exact fun h => h row hrow ho
  · intro h row' hrow' _
    obtain rfl := Option.some.inj (hrow.symm.trans hrow')
    exact h

/-- The row of the operation after its own response, or after another one's. -/
theorem get?_afterOwn {row own : OperationRow} {state : Json}
    (hrow : j.operations.get? key = some row) :
    (j.afterOwn own state).operations.get? key = some
      (if row.command.id = own.command.id then
        { row with
          receipt := inScope own.command state
          observing := own.command.observed &&
            !Connector.terminal ((inScope own.command state).get "status") }
      else row) := by
  unfold afterOwn
  rw [get?_write]
  exact congrArg (Option.map _) hrow

theorem get_inScope (command : Command) (state : Json) {k : String} (hk : k ≠ "execution_id") :
    (inScope command state).get? k = state.get? k := by
  unfold inScope
  split
  · simp [hk]
  · rfl

theorem agrees_inScope {command : Command} {state : Json} :
    Agrees (inScope command state) ↔ Agrees state := by
  have hs := get_inScope command state (k := "status") (by decide)
  have hp := get_inScope command state (k := "pending") (by decide)
  exact ⟨fun h => agrees_congr h hs.symm hp.symm, fun h => agrees_congr h hs hp⟩

/-- The own response: the receipt agrees and is final where it must exactly under `settles`. -/
theorem agrees_responded {response : Response} (hk : Kept r) (ha : Agrees r)
    (ht : Connector.terminal (r.get "status") = false)
    (h : responded r (responseState response) n = .ok r') :
    (Agrees r' ∧ (response.ended = true → Connector.terminal (r'.get "status") = true)) ↔
      (if keepsProjection r then !response.ended
        else foldSettles r (responseState response)) = true := by
  unfold responded at h
  unfold keepsProjection
  split at h
  · rename_i hkeep
    obtain rfl := pure_eq_ok.mp h
    rw [if_pos (by simpa using hkeep)]
    obtain ⟨s, hs⟩ := has_eq_true.mp hk.status
    obtain ⟨p, hp⟩ := has_eq_true.mp ha.pending
    have hs' : (withSequence ((responseState response).merge r) n).get? "status" = r.get? "status" := by
      simp [withSequence, hs]
    have hp' : (withSequence ((responseState response).merge r) n).get? "pending" =
        r.get? "pending" := by
      simp [withSequence, hp]
    have hagree := agrees_congr ha hs' hp'
    rw [get_congr hs', ht]
    simp [hagree]
  · rename_i hkeep
    rw [if_neg (by simpa using hkeep)]
    obtain ⟨hiff, hnext⟩ := agrees_fold h ha ht
    rw [← hiff]
    refine and_iff_left_of_imp fun _ hover => ?_
    rw [hnext]
    cases response with
    | error e => rfl
    | result s =>
      have hover : Connector.terminal (s.get "status") = true := hover
      show Connector.terminal (nextStatus r s) = true
      unfold nextStatus
      cases hg : s.get? "status" with
      | none =>
        rw [Json.get_eq, hg] at hover
        cases hover
      | some v => rwa [get_of_get? hg] at hover

theorem settled_complete (hw : j.Wf) {row : OperationRow} {original : String}
    {response : Response} (hrow : j.operations.get? key = some row)
    (ho : row.command.observed = true) (ha : Agrees row.receipt)
    (ht : Connector.terminal (row.receipt.get "status") = false)
    (hact : j.complete original response = .ok j') :
    j'.Settled key (concludes key (.complete original response)) ↔
      j.settles key (.complete original response) = true := by
  obtain ⟨own, state, hown, hstate, hclose⟩ := complete_cases hact
  have hid : row.command.id = key := (Table.get?_eq_some.mp hrow).2
  have hid' : own.command.id = original := (Table.get?_eq_some.mp hown).2
  by_cases hk : original = key
  · subst hk
    obtain rfl := Option.some.inj (hrow.symm.trans hown)
    have hrow' := (get?_closeOriginal hclose
      (by simp [closes_of_observed ho])).trans (get?_afterOwn hrow)
    rw [if_pos rfl] at hrow'
    rw [settled_row hrow' ho]
    simp only [settles, concludes, hrow, ht, ne_eq, not_true_eq_false, decide_false, Bool.false_or,
      decide_true, Bool.true_and, agrees_inScope,
      get_congr (get_inScope row.command state (k := "status") (by decide))]
    exact agrees_responded (hw.rows _ row hrow).kept ha ht hstate
  · refine iff_of_true ?_ (by simp [settles, hrow, hk])
    have hsame : (j.afterOwn own state).operations.get? key = some row := by
      rw [get?_afterOwn hrow, if_neg fun he => hk (hid'.symm.trans (he.symm.trans hid))]
    have hb : concludes key (.complete original response) = false := by simp [concludes, hk]
    rw [hb]
    by_cases hc : closes own.command (responseState response) = some key
    · intro row' hrow' _
      have hover := (closed_closeOriginal hclose hc hrow').1
      exact ⟨agrees_of_terminal ((hw.rows.moves (moves_complete hw.rows hact).1) key row' hrow').kept
        hover, fun hb => absurd hb Bool.false_ne_true⟩
    · have hrow' := (get?_closeOriginal hclose hc).trans hsame
      rw [settled_row hrow' ho]
      exact ⟨ha, fun hb => absurd hb Bool.false_ne_true⟩

theorem facts_congr {facts' : Json}
    (h : ∀ k, k ≠ "execution_id" → facts'.get? k = facts.get? k) :
    foldSettles r facts' = foldSettles r facts ∧ nextStatus r facts' = nextStatus r facts := by
  have hs := h "status" (by decide)
  have hp := get_congr (h "pending" (by decide))
  have hn : nextStatus r facts' = nextStatus r facts := by rw [nextStatus, nextStatus, hs]
  exact ⟨by rw [foldSettles, foldSettles, hn, hp], hn⟩

theorem projectEvent_row {row : OperationRow} {event : AgentEvent} {state : Option Json}
    {sequence : Option Int} {m : Nat} (hop : event.operationId = some key)
    (hrow : j.operations.get? key = some row)
    (h : projectEvent { j with lastSequence := m } { event with snapshotSequence := sequence } n =
      .ok (state, j')) :
    ∃ facts receipt observing, foldReceipt row.receipt facts n = .ok receipt ∧
      (∀ k, k ≠ "execution_id" → facts.get? k = (eventFacts event).get? k) ∧
      j'.operations.get? key =
        some { row with receipt := receipt, observing := observing } := by
  obtain ⟨id, type, kind, operationId, sessionId, executionId, payload, result, snapshot⟩ := event
  obtain rfl : operationId = some key := hop
  simp only [projectEvent, hrow, bind_eq_ok] at h
  obtain ⟨receipt, hfold, observing, -, he⟩ := h
  cases he
  refine ⟨_, receipt, observing, hfold, fun k hk => ?_, ?_⟩
  · split
    · simp [hk, eventFacts]
    · rfl
  · rw [get?_write]
    have hid : row.command.id = key := (Table.get?_eq_some.mp hrow).2
    simp [hrow, hid]

theorem projectEvent_other {event : AgentEvent} {state : Option Json} {sequence : Option Int}
    {m : Nat} (hop : event.operationId ≠ some key)
    (h : projectEvent { j with lastSequence := m } { event with snapshotSequence := sequence } n =
      .ok (state, j')) : j'.operations.get? key = j.operations.get? key := by
  unfold projectEvent at h
  split at h
  · cases h
    rfl
  · rename_i original hoption
    have hne : original ≠ key := fun he => hop (he ▸ hoption)
    split at h
    · cases h
      rfl
    · simp only [bind_eq_ok] at h
      obtain ⟨receipt, -, observing, -, he⟩ := h
      cases he
      rw [get?_write]
      cases hrow : j.operations.get? key with
      | none => simp
      | some row =>
        have hid : row.command.id ≠ original := fun he =>
          hne (he.symm.trans (Table.get?_eq_some.mp hrow).2)
        simp [hid]

theorem settled_append (hw : j.Wf) {row : OperationRow} {event : AgentEvent}
    (hrow : j.operations.get? key = some row) (ho : row.command.observed = true)
    (ha : Agrees row.receipt) (ht : Connector.terminal (row.receipt.get "status") = false)
    (hact : j.append event = .ok j') :
    j'.Settled key (concludes key (.append event)) ↔ j.settles key (.append event) = true := by
  have hdropped : ∀ {j' : Journal}, j'.operations = j.operations →
      (decide (j.stale event = .ok true) || (j.events.get? event.eventId).isSome) = true →
      (j'.Settled key (concludes key (.append event)) ↔
        j.settles key (.append event) = true) := by
    intro j' hops hd
    have hrow' : j'.operations.get? key = some row := by rw [hops, hrow]
    rw [settled_row hrow' ho]
    cases hop : event.operationId with
    | none => simp [concludes, settles, hop, ha]
    | some original =>
      by_cases hk : original = key
      · subst hk
        by_cases hkind : event.kind = "completed"
        · simp [concludes, settles, hop, hrow, ht, ha, hd, hkind]
        · simp [concludes, settles, hop, hrow, ha, hd, hkind]
      · refine iff_of_true ⟨ha, fun hb => ?_⟩ ?_
        · simp [concludes, hop, hk] at hb
        · simp [settles, hop, hrow, hk]
  rcases append_cases hw.rows hact with ⟨hstale, rfl⟩ | ⟨hsome, rfl⟩ |
    ⟨hstale, hnone, -, -, state, j₁, -, -, hproject, hops⟩
  · exact hdropped rfl (by simp [hstale])
  · exact hdropped rfl (by simp [hsome])
  · have hd : (decide (j.stale event = .ok true) || (j.events.get? event.eventId).isSome) = false := by
      simp [hstale, hnone]
    by_cases hop : event.operationId = some key
    · obtain ⟨facts, receipt, observing, hfold, hfacts, hget⟩ := projectEvent_row hop hrow hproject
      rw [settled_row ((congrArg (Table.get? · key) hops).trans hget) ho]
      obtain ⟨hiff, hnext⟩ := agrees_fold hfold ha ht
      obtain ⟨hsettles, hstatus⟩ := facts_congr (r := row.receipt) hfacts
      rw [hsettles] at hiff
      rw [hstatus] at hnext
      have hs : j.settles key (.append event) =
          if event.kind = "completed" then
            Connector.terminal (nextStatus row.receipt (eventFacts event))
          else foldSettles row.receipt (eventFacts event) := by
        simp only [settles, hop, hrow, ht, hd, ne_eq, not_true_eq_false, decide_false,
          Bool.false_or, Bool.not_false, Bool.true_and]
      have hc : concludes key (.append event) = decide (event.kind = "completed") := by
        simp [concludes, hop]
      rw [hs, hc, hnext, hiff]
      by_cases hkind : event.kind = "completed"
      · rw [if_pos hkind]
        simp only [hkind, decide_true, forall_const]
        exact and_iff_right_of_imp fun hover => by simp [foldSettles, hover]
      · rw [if_neg hkind]
        simp [hkind]
    · have hrow' : j'.operations.get? key = some row := by
        rw [hops, projectEvent_other hop hproject, hrow]
      rw [settled_row hrow' ho]
      refine iff_of_true ⟨ha, fun hb => ?_⟩ ?_
      · simp [concludes, hop] at hb
      · cases he : event.operationId with
        | none => simp [settles, he]
        | some original =>
          have hk : original ≠ key := fun hk => hop (by rw [he, hk])
          simp [settles, he, hrow, hk]

/-- A call that succeeds leaves the receipt agreeing, and final where it concludes the operation,
exactly where it settles it. -/
theorem settled_step {digest : Json → Option String} (hw : j.Wf) {row : OperationRow}
    {a : JournalAction} (hl : Lawful a) (hrow : j.operations.get? key = some row)
    (ho : row.command.observed = true) (ha : Agrees row.receipt)
    (hact : j.act digest a = .ok j') :
    j'.Settled key (concludes key a) ↔ j.settles key a = true := by
  cases ht : Connector.terminal (row.receipt.get "status") with
  | true =>
    have hsettled := settled_of_terminal digest hw hl hrow ht (b := concludes key a)
    rw [call, hact] at hsettled
    refine iff_of_true hsettled ?_
    cases a with
    | append event =>
      cases hop : event.operationId with
      | none => simp [settles, hop]
      | some original => simp [settles, hop, hrow, ht]
    | complete original response => simp [settles, hrow, ht]
    | _ => rfl
  | false =>
    have hkeep : ∀ {row' : OperationRow}, j'.operations.get? key = some row' →
        row'.command = row.command → Agrees row'.receipt → j'.Settled key false := by
      intro row' hrow' hc hagree
      rw [settled_row hrow' (hc ▸ ho)]
      exact ⟨hagree, fun hb => absurd hb Bool.false_ne_true⟩
    cases a with
    | begin command =>
      refine iff_of_true ?_ rfl
      rcases begin_cases hact with rfl | ⟨c, -, -, rfl⟩
      · exact hkeep hrow rfl ha
      · exact hkeep (Table.get?_insert_of_some hrow) rfl ha
    | append event => exact settled_append hw hrow ho ha ht hact
    | complete original response => exact settled_complete hw hrow ho ha ht hact
    | annotate original facts =>
      refine iff_of_true ?_ rfl
      have hget := (annotate_cases hact).1 key
      rw [hrow, Option.map_some] at hget
      by_cases hk : row.command.id = original
      · rw [if_pos hk] at hget
        refine hkeep hget rfl (agrees_congr ha ?_ ?_)
        · simp [withSequence, hl "status" (by simp)]
        · simp [withSequence, hl "pending" (by simp)]
      · rw [if_neg hk] at hget
        exact hkeep hget rfl ha
    | ack original =>
      refine iff_of_true ?_ rfl
      obtain rfl := Except.ok.inj hact
      exact hkeep hrow rfl ha

/-- A step that settles the operation. -/
def SettlingStep (digest : Json → Option String) (key : String) (j : Journal) (a : JournalAction)
    (j' : Journal) : Prop :=
  Step digest j a j' ∧ j.settles key a = true

theorem settled_act {digest : Json → Option String} (hw : j.Wf) (h : j.Settled key false)
    {a : JournalAction} (hl : Lawful a) (hact : j.act digest a = .ok j')
    (hs : j.settles key a = true) : j'.Settled key (concludes key a) := by
  cases hrow : j.operations.get? key with
  | some row =>
    by_cases ho : row.command.observed = true
    · exact (settled_step hw hl hrow ho (h row hrow ho).1 hact).mpr hs
    · -- an operation keeps its command
      obtain ⟨-, hlater⟩ := wf_call digest hw hl
      rw [call, hact] at hlater
      obtain ⟨row₁, hrow₁, hc, -⟩ := hlater.rows key row hrow
      intro row' hrow' ho'
      obtain rfl := Option.some.inj (hrow'.symm.trans hrow₁)
      exact absurd (hc ▸ ho') ho
  | none =>
    have hfresh : ∀ {n : Nat}, Moves n j j' → j'.Settled key (concludes key a) := by
      intro n hm row' hrow'
      rw [hm.fresh key hrow] at hrow'
      cases hrow'
    cases a with
    | begin command =>
      rcases begin_cases hact with rfl | ⟨c, -, -, rfl⟩
      · exact hfresh (.refl 0 _)
      · intro row' hrow' ho'
        rw [Table.get?_insert, hrow, Option.none_or, Option.ite_none_right_eq_some] at hrow'
        obtain rfl := Option.some.inj hrow'.2
        exact ⟨agrees_initialReceipt ho', fun hb => nomatch hb⟩
    | append event =>
      rcases append_cases hw.rows hact with ⟨-, rfl⟩ | ⟨-, rfl⟩ | ⟨-, -, hm, -⟩
      · exact hfresh (.refl 0 _)
      · intro row' hrow'
        rw [show Table.get? j.operations key = some row' from hrow'] at hrow
        cases hrow
      · exact hfresh hm
    | complete original response => exact hfresh (moves_complete hw.rows hact).1
    | annotate original facts => exact hfresh (moves_annotate hw.rows hl hact).1
    | ack original =>
      obtain rfl := Except.ok.inj hact
      intro row' hrow'
      rw [show Table.get? j.operations key = some row' from hrow'] at hrow
      cases hrow

/-- What a run keeps while its calls settle the operation. -/
def Tidy (key : String) (j : Journal) : Prop :=
  j.Wf ∧ j.Settled key false

theorem tidy_run {digest : Json → Option String} {as : List JournalAction}
    (h : Run (SettlingStep digest key) empty as j) : j.Tidy key := by
  have hstep : ∀ j a j', Tidy key j → SettlingStep digest key j a j' → Tidy key j' := by
    rintro j a _ ⟨hw, hs⟩ ⟨⟨hl, rfl⟩, hsettles⟩
    refine ⟨(wf_call _ hw hl).1, ?_⟩
    unfold call
    cases hact : j.act digest a with
    | error e => exact hs
    | ok j' => exact fun row hrow ho => ⟨(settled_act hw hs hl hact hsettles row hrow ho).1, nofun⟩
  exact Run.invariant hstep h ⟨wf_empty, fun _ h => nomatch h⟩

end Journal

end Yuki.Connector

namespace Yuki.ExternalAgents

open Connector

variable {keys : AgentKeys} {store store' : AgentStore} {row row' : AgentOperation} {receipt : Json}

/-- The connector's final statuses all complete a run. -/
theorem completionStatus_of_terminal (h : terminal (receipt.get "status") = true) :
    ∃ status, completionStatus receipt = some status := by
  have hmem : ∃ s ∈ terminalStatuses, receipt.get "status" = .str s := by
    cases hs : receipt.get "status" with
    | str s =>
      rw [hs] at h
      exact ⟨s, of_decide_eq_true h, rfl⟩
    | _ =>
      rw [hs] at h
      cases h
  obtain ⟨s, hs, he⟩ := hmem
  simp only [terminalStatuses, List.mem_cons, List.not_mem_nil, or_false] at hs
  unfold completionStatus
  rw [he]
  rcases hs with rfl | rfl | rfl | rfl | rfl
  · exact ⟨_, rfl⟩
  · exact ⟨_, rfl⟩
  · exact ⟨"failed", by simp⟩
  · exact ⟨_, rfl⟩
  · by_cases herror : (receipt.get "error").truthy = true
    · exact ⟨"failed", by simp [herror]⟩
    · exact ⟨"succeeded", by simp [herror]⟩

theorem completeRun_completed (row : AgentOperation) (run : TaskRun) {status : String}
    (hs : completionStatus receipt = some status) (hrun : store.runs.get? row.id = some run)
    (h : completeRun keys store row receipt = .ok store') :
    ∃ run', store'.runs.get? row.id = some run' ∧ run'.status = .completed := by
  unfold completeRun at h
  simp only [hs, hrun] at h
  split at h
  · rename_i hdone
    obtain rfl := Except.ok.inj h
    exact ⟨run, hrun, hdone⟩
  · split at h
    · cases h
    · obtain rfl := Except.ok.inj h
      have hid : run.requestId = row.id := (Table.get?_eq_some.mp hrun).2
      rw [Table.get?_update, hrun]
      exact ⟨_, rfl, by simp [hid]⟩

/-- A receipt with a final status completes the run it is projected to. -/
theorem project_completed {run : TaskRun} (ht : terminal (receipt.get "status") = true)
    (hp : receipt.get "pending" = .bool false) (hrunId : row.runId.getD "" ≠ "")
    (hopen : row.detachedAt = none) (hprevious : row.previous.get "pending" ≠ .bool false)
    (hseq : superseded row.previous receipt = false)
    (hrun : store.runs.get? row.id = some run)
    (h : project keys store row receipt = .ok (store', row')) :
    ∃ run', store'.runs.get? row.id = some run' ∧ run'.status = .completed := by
  obtain ⟨status, hs⟩ := completionStatus_of_terminal ht
  unfold project at h
  rw [if_neg (by simp [hopen, hprevious]), if_neg (by simp [hseq]), if_neg hrunId, if_pos hp,
    map_eq_ok] at h
  obtain ⟨store₁, hcomplete, he⟩ := h
  cases he
  refine completeRun_completed { row with resultJson := some receipt }
    (if run.requestId = row.id ∧ run.status = .waiting then
      { run with progress := row.sessionId } else run) hs ?_ hcomplete
  rw [Table.get?_update, hrun]
  simp

end Yuki.ExternalAgents

namespace Yuki.Connector.Journal

variable {j : Journal} {key : String}

/-- While every call settles an observed operation, its receipt has nothing pending exactly when
its status is final and is then no longer observed; a concluding call ends it exactly where it
settles it; and a receipt with nothing pending completes the run it is projected to. -/
theorem agreed_when_settled (digest : Json → Option String) {as : List JournalAction}
    (h : Run (SettlingStep digest key) empty as j) {row : OperationRow}
    (hrow : j.operations.get? key = some row) (ho : row.command.observed = true) :
    (row.receipt.get "pending" = .bool false ↔ terminal (row.receipt.get "status") = true) ∧
    (terminal (row.receipt.get "status") = true → row.observing = false) ∧
    (row.receipt.get "pending" = .bool false →
      ∀ (keys : ExternalAgents.AgentKeys) (store store' : ExternalAgents.AgentStore)
        (server server' : ExternalAgents.AgentOperation) (run : ExternalAgents.TaskRun),
        server.runId.getD "" ≠ "" → server.detachedAt = none →
        server.previous.get "pending" ≠ .bool false →
        ExternalAgents.superseded server.previous row.receipt = false →
        store.runs.get? server.id = some run →
        ExternalAgents.project keys store server row.receipt = .ok (store', server') →
        ∃ run', store'.runs.get? server.id = some run' ∧ run'.status = .completed) ∧
    ∀ a j', Lawful a → j.act digest a = .ok j' →
      (j'.Settled key (concludes key a) ↔ j.settles key a = true) := by
  obtain ⟨hw, hs⟩ := tidy_run h
  have ha := (hs row hrow ho).1
  refine ⟨ha.ended, fun ht => ?_, fun hp keys store store' server server' run hrun hopen hprev hseq
    hget hproject => ?_, fun a j' hl hact => settled_step hw hl hrow ho ha hact⟩
  · rw [(hw.rows key row hrow).observing, ht, ho]
    rfl
  · exact ExternalAgents.project_completed (ha.ended.mp hp) hp hrun hopen hprev hseq hget hproject

/-- The prompt of `promptRun`, over on both sides. -/
theorem agreed_when_settled_sample :
    ∃ j, Run (SettlingStep (fun _ => none) "p") empty promptRun j ∧
      ∃ row, j.operations.get? "p" = some row ∧ row.command.observed = true ∧
        (row.receipt.get "pending" = .bool false ↔
          terminal (row.receipt.get "status") = true) := by
  have hrun : Run (SettlingStep (fun _ => none) "p") empty promptRun
      (promptRun.foldl (call fun _ => none) empty) :=
    .cons ⟨⟨trivial, rfl⟩, by decide +kernel⟩ (.cons ⟨⟨trivial, rfl⟩, by decide +kernel⟩
      (.cons ⟨⟨trivial, rfl⟩, by decide +kernel⟩ (.nil _)))
  have hget : (((promptRun.foldl (call fun _ => none) empty).operations.get? "p").map
      fun row => row.command.observed) = some true := by
    decide +kernel
  obtain ⟨row, hrow, ho⟩ := Option.map_eq_some_iff.mp hget
  exact ⟨_, hrun, row, hrow, ho, (agreed_when_settled _ hrun hrow ho).1⟩

/-- A turn that completes with a status of its own leaves the operation observed with nothing
pending, and the server stores that receipt without completing the run; an error after an early
milestone leaves the operation running. -/
theorem completed_without_status :
    let call := call fun _ => none
    let begun := call empty (.begin { id := "p", action := "prompt" })
    let turn := call begun (.append
      { eventId := "e", kind := "completed", operationId := some "p"
        payload := .obj [("admitted", .bool true), ("status", .str "unknown")] })
    let failed := call (call begun (.append
      { eventId := "e", kind := "progress", operationId := some "p"
        payload := .obj [("admitted", .bool true), ("status", .str "running")] }))
      (.complete "p" (.error (.obj [("code", .str "native_error")])))
    let store : ExternalAgents.AgentStore :=
      ⟨.empty, Table.empty.insert { requestId := "p" }, .empty, .empty, .empty⟩
    ((turn.operation "p").get "pending" = .bool false ∧
      terminal ((turn.operation "p").get "status") = false ∧ turn.observations.length = 1) ∧
    ((ExternalAgents.project ⟨fun _ _ => none, fun _ s => s, fun _ s => s⟩ store
        { id := "p", instanceId := "i", action := "prompt", runId := some "r" }
        (turn.operation "p")).toOption.map fun p =>
          (p.2.resultJson, (p.1.runs.get? "p").map (·.status))) =
      some (some (turn.operation "p"), some .waiting) ∧
    terminal ((failed.operation "p").get "status") = false := by
  decide +kernel

end Yuki.Connector.Journal

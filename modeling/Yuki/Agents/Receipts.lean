import Yuki.Agents.Journal

/-! Receipts are ordered and final over every run of the journal. -/

namespace Yuki.Connector

/-! What one write may do to a receipt. -/

/-- A receipt names a status, and has nothing pending once that is final. -/
structure Kept (r : Json) : Prop where
  status : r.has "status" = true
  settled : terminal (r.get "status") = true → r.get? "pending" = some (.bool false)

/-- The receipt `r'` that replaces `r` under a sequence. -/
structure Follows (n : Nat) (r r' : Json) : Prop where
  kept : Kept r'
  sequence : r'.get? "state_sequence" = some (.int n)
  final : terminal (r.get "status") = true →
    r'.get? "status" = r.get? "status" ∧ r'.get? "pending" = r.get? "pending"
  admitted : r.get "admitted" = .bool true → r'.get "admitted" = .bool true
  detached : terminal (r.get "status") = true → r.get "detached" = .bool true →
    r'.get "detached" = .bool true

variable {r r' facts result : Json} {n : Nat}

theorem inTerminal_eq_ok {status : Json} {b : Bool} (h : inTerminal status = .ok b) :
    terminal status = b := by
  cases status <;> simp_all [inTerminal]

theorem has_eq_true {j : Json} {k : String} : j.has k = true ↔ ∃ v, j.get? k = some v := by
  rw [Json.has_eq, Option.isSome_iff_exists]

theorem get_congr {j j' : Json} {k : String} (h : j'.get? k = j.get? k) : j'.get k = j.get k := by
  rw [Json.get_eq, Json.get_eq, h]

/-- A write that keeps the lifecycle members keeps the rest of it. -/
theorem Follows.of_same (h : Kept r) (hseq : r'.get? "state_sequence" = some (.int n))
    (hsame : ∀ k ∈ ["status", "pending", "admitted", "detached"], r'.get? k = r.get? k) :
    Follows n r r' := by
  have hstatus := hsame "status" (by simp)
  have hpending := hsame "pending" (by simp)
  refine ⟨⟨?_, fun ht => ?_⟩, hseq, fun _ => ⟨hstatus, hpending⟩, fun ha => ?_, fun _ hd => ?_⟩
  · rw [Json.has_eq, hstatus, ← Json.has_eq]
    exact h.status
  · rw [hpending]
    exact h.settled (get_congr hstatus ▸ ht)
  · rw [get_congr (hsame "admitted" (by simp))]
    exact ha
  · rw [get_congr (hsame "detached" (by simp))]
    exact hd

theorem Follows.trans {m : Nat} {r₁ r₂ r₃ : Json} (h : Follows m r₁ r₂) (h' : Follows n r₂ r₃) :
    Follows n r₁ r₃ := by
  have hnext : terminal (r₁.get "status") = true → terminal (r₂.get "status") = true := by
    intro ht
    rw [get_congr (h.final ht).1]
    exact ht
  refine ⟨h'.kept, h'.sequence, fun ht => ?_, fun ha => h'.admitted (h.admitted ha),
    fun ht hd => h'.detached (hnext ht) (h.detached ht hd)⟩
  obtain ⟨hs, hp⟩ := h.final ht
  obtain ⟨hs', hp'⟩ := h'.final (hnext ht)
  exact ⟨hs'.trans hs, hp'.trans hp⟩

/-- Members outside the lifecycle come and go. -/
theorem Follows.congr {r'' : Json} (h : Follows n r r')
    (hsame : ∀ k ∈ ["status", "pending", "admitted", "detached", "state_sequence"],
      r''.get? k = r'.get? k) : Follows n r r'' :=
  h.trans (.of_same h.kept ((hsame _ (by simp)).trans h.sequence) fun k hk =>
    hsame k (by simp only [List.mem_cons, List.not_mem_nil, or_false] at hk ⊢; tauto))

/-- What a fold returns. -/
theorem foldReceipt_cases (h : foldReceipt r facts n = .ok r') :
    terminal (r.get "status") = true ∧ r' = withSequence r n ∨
      terminal (r.get "status") = false ∧
        r'.get? "state_sequence" = some (.int n) ∧
        r'.get? "status" = (facts.get? "status").or (r.get? "status") ∧
        r'.get? "pending" = (if terminal (r'.get "status") then some (.bool false)
          else (facts.get? "pending").or (r.get? "pending")) ∧
        r'.get? "admitted" = (if r.get "admitted" = .bool true then some (.bool true)
          else (facts.get? "admitted").or (r.get? "admitted")) ∧
        r'.get? "detached" = (facts.get? "detached").or (r.get? "detached") := by
  unfold foldReceipt at h
  simp only [bind_eq_ok] at h
  obtain ⟨b, hb, h⟩ := h
  have hb := inTerminal_eq_ok hb
  cases b with
  | true =>
    left
    exact ⟨hb, (pure_eq_ok.mp h).symm⟩
  | false =>
    right
    refine ⟨hb, ?_⟩
    simp only [Bool.false_eq_true, if_false, bind_eq_ok, pure_eq_ok] at h
    obtain ⟨ended, hover, h⟩ := h
    have hover := inTerminal_eq_ok hover
    generalize hm : (if r.get "admitted" = .bool true then
      (withSequence (r.merge facts) n).set "admitted" (.bool true)
      else withSequence (r.merge facts) n) = m at h hover
    have hmerged : ∀ k, m.get? k = if k = "admitted" ∧ r.get "admitted" = .bool true then
        some (.bool true) else if k = "state_sequence" then some (.int n)
        else (facts.get? k).or (r.get? k) := by
      intro k
      rw [← hm]
      by_cases ha : r.get "admitted" = .bool true
      · simp [ha, withSequence]
      · simp [ha, withSequence]
    generalize hp : (if ended = true then m.set "pending" (.bool false) else m) = p at h
    have hpended : ∀ k, p.get? k = if k = "pending" ∧ ended = true then some (.bool false)
        else m.get? k := by
      intro k
      rw [← hp]
      cases ended with
      | true => simp
      | false => simp
    have hlast : ∀ k ∉ ["reason", "error_type", "last_confirmed"], r'.get? k = p.get? k := by
      intro k hk
      rw [← h]
      split
      · simp only [List.mem_cons, List.not_mem_nil, or_false, not_or] at hk
        simp [hk]
      · rfl
    have hstatus : r'.get "status" = m.get "status" :=
      get_congr ((hlast _ (by decide)).trans ((hpended _).trans (by simp)))
    refine ⟨?_, ?_, ?_, ?_, ?_⟩
    · rw [hlast _ (by decide), hpended, hmerged]
      simp
    · rw [hlast _ (by decide), hpended, hmerged]
      simp
    · rw [hlast _ (by decide), hpended, hmerged, hstatus, hover]
      simp
    · rw [hlast _ (by decide), hpended, hmerged]
      simp
    · rw [hlast _ (by decide), hpended, hmerged]
      simp

theorem Follows.fold (hr : Kept r) (h : foldReceipt r facts n = .ok r') : Follows n r r' := by
  rcases foldReceipt_cases h with ⟨ht, rfl⟩ | ⟨ht, hseq, hstatus, hpending, hadmitted, hdetached⟩
  · refine .of_same hr (by simp [withSequence]) fun k hk => ?_
    have hne : k ≠ "state_sequence" := by
      rintro rfl
      simp at hk
    simp [withSequence, hne]
  · refine ⟨⟨?_, fun ht' => ?_⟩, hseq, fun ht' => ?_, fun ha => ?_, fun ht' => ?_⟩
    · obtain ⟨v, hv⟩ := has_eq_true.mp hr.status
      rw [Json.has_eq, hstatus, hv]
      cases facts.get? "status" with
      | none => rfl
      | some w => rfl
    · rw [hpending, if_pos ht']
    · rw [ht] at ht'
      cases ht'
    · rw [Json.get_eq, hadmitted, if_pos ha]
      rfl
    · rw [ht] at ht'
      cases ht'

theorem Follows.merge_left (hr : Kept r) : Follows n r (withSequence (result.merge r) n) := by
  obtain ⟨s, hs⟩ := has_eq_true.mp hr.status
  have hget : ∀ k v, k ≠ "state_sequence" → r.get? k = some v →
      (withSequence (result.merge r) n).get? k = some v := by
    intro k v hk hv
    simp [withSequence, hk, hv]
  have hstatus : (withSequence (result.merge r) n).get? "status" = r.get? "status" :=
    (hget "status" s (by decide) hs).trans hs.symm
  have htrue : ∀ k, k ≠ "state_sequence" → r.get k = .bool true →
      (withSequence (result.merge r) n).get k = .bool true := by
    intro k hk hv
    cases hg : r.get? k with
    | none =>
      rw [Json.get_eq, hg] at hv
      cases hv
    | some v => rw [← hv, get_congr ((hget k v hk hg).trans hg.symm)]
  have hpending : terminal (r.get "status") = true →
      (withSequence (result.merge r) n).get? "pending" = r.get? "pending" := fun ht =>
    (hget _ _ (by decide) (hr.settled ht)).trans (hr.settled ht).symm
  refine ⟨⟨?_, fun ht => ?_⟩, by simp [withSequence], fun ht => ⟨hstatus, hpending ht⟩,
    htrue _ (by decide), fun _ => htrue _ (by decide)⟩
  · rw [Json.has_eq, hstatus, ← Json.has_eq]
    exact hr.status
  · rw [get_congr hstatus] at ht
    rw [hpending ht]
    exact hr.settled ht

theorem Follows.responded (hr : Kept r) (h : Journal.responded r result n = .ok r') :
    Follows n r r' := by
  unfold Journal.responded at h
  split at h
  · obtain rfl := pure_eq_ok.mp h
    exact .merge_left hr
  · exact .fold hr h

/-- `_detach` marks the receipt it folded. -/
theorem Follows.setDetached (h : Follows n r r') :
    Follows n r (r'.set "detached" (.bool true)) := by
  have hsame : ∀ k, k ≠ "detached" → (r'.set "detached" (.bool true)).get? k = r'.get? k :=
    fun k hk => by simp [hk]
  refine ⟨⟨?_, fun ht => ?_⟩, ?_, fun ht => ?_, fun ha => ?_, fun _ _ => ?_⟩
  · rw [Json.has_eq, hsame _ (by decide), ← Json.has_eq]
    exact h.kept.status
  · rw [hsame _ (by decide)]
    exact h.kept.settled (get_congr (hsame "status" (by decide)) ▸ ht)
  · rw [hsame _ (by decide)]
    exact h.sequence
  · rw [hsame _ (by decide), hsame _ (by decide)]
    exact h.final ht
  · rw [get_congr (hsame "admitted" (by decide))]
    exact h.admitted ha
  · rw [Json.get_eq, Json.get?_set]
    rfl

/-- The identity of a turn leaves the receipt of a session. -/
theorem Follows.eraseExecution (h : Follows n r r') : Follows n r (r'.erase "execution_id") := by
  refine h.congr fun k hk => ?_
  have hne : k ≠ "execution_id" := by
    rintro rfl
    simp at hk
  simp [hne]

/-- Evidence that `annotate` may attach: it holds no member of the lifecycle. -/
def Evidence (facts : Json) : Prop :=
  ∀ k ∈ ["status", "pending", "admitted", "detached"], facts.get? k = none

theorem Follows.annotate (hr : Kept r) (h : Evidence facts) :
    Follows n r (withSequence (r.merge facts) n) := by
  refine .of_same hr (by simp [withSequence]) fun k hk => ?_
  have hne : k ≠ "state_sequence" := by
    rintro rfl
    simp at hk
  simp [withSequence, hne, h k hk]

/-! What one call may do to the operations. -/

structure OperationRow.Ok (row : OperationRow) : Prop where
  kept : Kept row.receipt
  observing : row.observing = (row.command.observed && !terminal (row.receipt.get "status"))

/-- A row stays, or its receipt is replaced under the sequence. -/
def OperationRow.Moved (n : Nat) (row row' : OperationRow) : Prop :=
  row'.command = row.command ∧ (row' = row ∨ Follows n row.receipt row'.receipt ∧ row'.Ok)

/-- The operations stay the same ones. -/
structure Journal.Moves (n : Nat) (j j' : Journal) : Prop where
  rows : ∀ key row, j.operations.get? key = some row →
    ∃ row', j'.operations.get? key = some row' ∧ row.Moved n row'
  fresh : ∀ key, j.operations.get? key = none → j'.operations.get? key = none

namespace Journal

variable {j j' : Journal} {key : String}

theorem Moves.refl (n : Nat) (j : Journal) : Moves n j j :=
  ⟨fun _ row h => ⟨row, h, rfl, Or.inl rfl⟩, fun _ h => h⟩

theorem Moves.trans {j₁ j₂ j₃ : Journal} (h : Moves n j₁ j₂) (h' : Moves n j₂ j₃) :
    Moves n j₁ j₃ := by
  refine ⟨fun key row hrow => ?_, fun key hn => h'.fresh key (h.fresh key hn)⟩
  obtain ⟨row₂, hrow₂, hc, hm⟩ := h.rows key row hrow
  obtain ⟨row₃, hrow₃, hc', hm'⟩ := h'.rows key row₂ hrow₂
  refine ⟨row₃, hrow₃, hc'.trans hc, ?_⟩
  rcases hm with rfl | ⟨hf, hok⟩
  · exact hm'
  · rcases hm' with rfl | ⟨hf', hok'⟩
    · exact Or.inr ⟨hf, hok⟩
    · exact Or.inr ⟨hf.trans hf', hok'⟩

theorem get?_write (j : Journal) (key other : String) (receipt : Json) (observing : Bool) :
    (j.write key receipt observing).operations.get? other = (j.operations.get? other).map fun row =>
      if row.command.id = key then { row with receipt := receipt, observing := observing }
      else row := by
  simp [write]

theorem Moves.write {receipt : Json} {observing : Bool}
    (h : ∀ row, j.operations.get? key = some row → Follows n row.receipt receipt ∧
      observing = (row.command.observed && !terminal (receipt.get "status"))) :
    Moves n j (j.write key receipt observing) := by
  refine ⟨fun other row hrow => ?_, fun other hn => ?_⟩
  · rw [get?_write, hrow]
    refine ⟨_, rfl, ?_⟩
    have hid : row.command.id = other := (Table.get?_eq_some.mp hrow).2
    by_cases hk : row.command.id = key
    · simp only [hk, if_true]
      obtain ⟨hf, ho⟩ := h row (by rw [← hk, hid, hrow])
      exact ⟨rfl, Or.inr ⟨hf, hf.kept, ho⟩⟩
    · simp only [hk, if_false]
      exact ⟨rfl, Or.inl rfl⟩
  · rw [get?_write, hn]
    rfl

theorem operation_eq {row : OperationRow} (h : j.operations.get? key = some row) :
    j.operation key = row.receipt := by
  rw [operation, h]

/-- The rows of a journal, each with its receipt in order. -/
def RowsOk (j : Journal) : Prop :=
  ∀ key row, j.operations.get? key = some row → row.Ok

theorem RowsOk.moves (h : j.RowsOk) (hm : Moves n j j') : j'.RowsOk := by
  intro key row' hrow'
  cases hrow : j.operations.get? key with
  | none =>
    rw [hm.fresh key hrow] at hrow'
    cases hrow'
  | some row =>
    obtain ⟨row₁, hrow₁, hc, hmoved⟩ := hm.rows key row hrow
    obtain rfl := Option.some.inj (hrow'.symm.trans hrow₁)
    rcases hmoved with rfl | ⟨-, hok⟩
    · exact h key _ hrow
    · exact hok

/-- Facts with a final status leave a final receipt. -/
theorem terminal_fold (h : foldReceipt r facts n = .ok r')
    (ht : terminal (facts.get "status") = true) : terminal (r'.get "status") = true := by
  rcases foldReceipt_cases h with ⟨hr, rfl⟩ | ⟨-, -, hs, -⟩
  · have hsame : (withSequence r n).get "status" = r.get "status" :=
      get_congr (by simp [withSequence])
    rw [hsame]
    exact hr
  · cases hf : facts.get? "status" with
    | none =>
      rw [Json.get_eq, hf] at ht
      cases ht
    | some v =>
      have hv : r'.get "status" = facts.get "status" := by
        rw [Json.get_eq, Json.get_eq, hs, hf]
        rfl
      rw [hv]
      exact ht

/-- The operation that the response to a command closes. -/
def closes (command : Command) (result : Json) : Option String :=
  if command.action = "detach" ∧ result.get "admitted" = .bool true ∧
      result.get "detached" = .bool true then
    match ((command.fields.get? "arguments").getD .null).get? "operation_id" with
    | some (.str original) => some original
    | _ => none
  else if command.action = "cancel" ∧ result.get "pending" = .bool false ∧
      terminal (result.get "status") = true then
    match (command.fields.getD "arguments" (.obj [])).get "operation_id" with
    | .str original => some original
    | _ => none
  else none

/-- A response closes the operation it names, and no other. -/
theorem closeOriginal_cases {command : Command}
    (h : j.closeOriginal command result n = .ok j') :
    closes command result = none ∧ j' = j ∨
      ∃ original facts state, closes command result = some original ∧
        foldReceipt (j.operation original) facts n = .ok state ∧
        terminal (facts.get "status") = true ∧
        (command.action = "detach" ∧ j' = j.write original (state.set "detached" (.bool true)) false ∨
          command.action ≠ "detach" ∧ j' = j.write original state false) := by
  unfold closeOriginal at h
  unfold closes
  by_cases hd : command.action = "detach" ∧ result.get "admitted" = .bool true ∧
      result.get "detached" = .bool true
  · rw [if_pos hd] at h ⊢
    simp only [bind_eq_ok, expect_eq_ok] at h
    obtain ⟨args, hargs, h⟩ := h
    rw [hargs, Option.getD_some]
    cases ho : args.get? "operation_id" with
    | none =>
      rw [ho] at h
      cases h
    | some v =>
      cases v with
      | str original =>
        rw [ho] at h
        unfold detach at h
        simp only [bind_eq_ok, pure_eq_ok] at h
        obtain ⟨state, hstate, rfl⟩ := h
        exact Or.inr ⟨original, _, state, rfl, hstate, rfl, Or.inl ⟨hd.1, rfl⟩⟩
      | _ =>
        rw [ho] at h
        exact Or.inl ⟨rfl, (pure_eq_ok.mp h).symm⟩
  rw [if_neg hd] at h ⊢
  by_cases hc : command.action = "cancel" ∧ result.get "pending" = .bool false
  · rw [if_pos hc] at h
    simp only [bind_eq_ok] at h
    obtain ⟨ended, hover, h⟩ := h
    have hover := inTerminal_eq_ok hover
    cases ended with
    | false =>
      rw [if_neg fun hh => by rw [hh.2.2] at hover; cases hover]
      exact Or.inl ⟨rfl, (pure_eq_ok.mp h).symm⟩
    | true =>
      rw [if_pos ⟨hc.1, hc.2, hover⟩]
      simp only [if_true] at h
      cases ho : (command.fields.getD "arguments" (.obj [])).get "operation_id" with
      | str original =>
        rw [ho] at h
        simp only [bind_eq_ok, pure_eq_ok] at h
        obtain ⟨state, hstate, rfl⟩ := h
        refine Or.inr ⟨original, _, state, rfl, hstate, hover, Or.inr ⟨?_, rfl⟩⟩
        rw [hc.1]
        decide
      | _ =>
        rw [ho] at h
        exact Or.inl ⟨rfl, (pure_eq_ok.mp h).symm⟩
  · rw [if_neg hc] at h
    rw [if_neg fun hh => hc ⟨hh.1, hh.2.1⟩]
    exact Or.inl ⟨rfl, (pure_eq_ok.mp h).symm⟩

theorem get_setDetached {state : Json} {k : String} (hk : k ≠ "detached") :
    (state.set "detached" (.bool true)).get k = state.get k :=
  get_congr (by simp [hk])

theorem moves_closeOriginal (hok : j.RowsOk) {command : Command}
    (h : j.closeOriginal command result n = .ok j') :
    Moves n j j' ∧ j'.events = j.events ∧ j'.lastSequence = j.lastSequence := by
  rcases closeOriginal_cases h with ⟨-, rfl⟩ |
    ⟨original, facts, state, -, hstate, ht, ⟨-, rfl⟩ | ⟨-, rfl⟩⟩
  · exact ⟨.refl n _, rfl, rfl⟩
  · refine ⟨.write fun row hrow => ?_, rfl, rfl⟩
    rw [operation_eq hrow] at hstate
    refine ⟨(Follows.fold (hok _ row hrow).kept hstate).setDetached, ?_⟩
    rw [get_setDetached (by decide), terminal_fold hstate ht]
    simp
  · refine ⟨.write fun row hrow => ?_, rfl, rfl⟩
    rw [operation_eq hrow] at hstate
    refine ⟨.fold (hok _ row hrow).kept hstate, ?_⟩
    rw [terminal_fold hstate ht]
    simp

theorem nextSequence_eq_ok {m : Nat} (h : j.nextSequence key = .ok (m, j')) :
    m = j.lastSequence + 1 ∧ j' = { j with lastSequence := j.lastSequence + 1 } := by
  unfold nextSequence at h
  simp only [bind_eq_ok, pure_eq_ok] at h
  obtain ⟨-, -, he⟩ := h
  cases he
  exact ⟨rfl, rfl⟩

theorem observing_eq {command : Command} {status : Json} {b : Bool}
    (h : command.observing status = .ok b) : b = (command.observed && !terminal status) := by
  unfold Command.observing at h
  cases ho : command.observed with
  | false =>
    rw [ho] at h
    exact (Except.ok.inj h).symm
  | true =>
    rw [ho, if_pos rfl, map_eq_ok] at h
    obtain ⟨ended, hover, rfl⟩ := h
    rw [inTerminal_eq_ok hover]
    rfl

/-- The receipt of a session has no turn of its own. -/
def inScope (command : Command) (state : Json) : Json :=
  if command.sessionScope then state.erase "execution_id" else state

/-- The journal between the own receipt of a response and the original it closes. -/
def afterOwn (j : Journal) (row : OperationRow) (state : Json) : Journal :=
  write { j with lastSequence := j.lastSequence + 1 } row.command.id (inScope row.command state)
    (row.command.observed && !Connector.terminal ((inScope row.command state).get "status"))

theorem complete_cases {response : Response} (h : j.complete key response = .ok j') :
    ∃ row state, j.operations.get? key = some row ∧
      responded row.receipt (responseState response) (j.lastSequence + 1) = .ok state ∧
      (j.afterOwn row state).closeOriginal row.command (responseState response)
        (j.lastSequence + 1) = .ok j' := by
  unfold complete at h
  simp only [bind_eq_ok, expect_eq_ok] at h
  obtain ⟨row, hrow, ⟨m, j₁⟩, hseq, h⟩ := h
  obtain ⟨rfl, rfl⟩ := nextSequence_eq_ok hseq
  obtain ⟨state, hstate, observing, hobs, h⟩ := h
  obtain rfl := observing_eq hobs
  obtain rfl : row.command.id = key := (Table.get?_eq_some.mp hrow).2
  exact ⟨row, state, hrow, hstate, h⟩

theorem moves_afterOwn (hok : j.RowsOk) {row : OperationRow} {state : Json}
    (hrow : j.operations.get? key = some row)
    (hs : responded row.receipt result (j.lastSequence + 1) = .ok state) :
    Moves (j.lastSequence + 1) j (j.afterOwn row state) ∧ (j.afterOwn row state).RowsOk := by
  obtain rfl : row.command.id = key := (Table.get?_eq_some.mp hrow).2
  have hf : Follows (j.lastSequence + 1) row.receipt (inScope row.command state) := by
    have hstate := Follows.responded (hok _ row hrow).kept hs
    unfold inScope
    split
    · exact hstate.eraseExecution
    · exact hstate
  have hm : Moves (j.lastSequence + 1) { j with lastSequence := j.lastSequence + 1 }
      (j.afterOwn row state) := by
    refine .write fun row' hrow' => ?_
    obtain rfl := Option.some.inj (hrow.symm.trans hrow')
    exact ⟨hf, rfl⟩
  exact ⟨⟨hm.rows, hm.fresh⟩, RowsOk.moves (j := { j with
    lastSequence := j.lastSequence + 1 }) hok hm⟩

theorem moves_complete (hok : j.RowsOk) {response : Response}
    (h : j.complete key response = .ok j') :
    Moves (j.lastSequence + 1) j j' ∧ j'.events = j.events ∧
      j'.lastSequence = j.lastSequence + 1 := by
  obtain ⟨row, state, hrow, hstate, hclose⟩ := complete_cases h
  obtain ⟨hm, hok'⟩ := moves_afterOwn hok hrow hstate
  obtain ⟨hm', he, hl⟩ := moves_closeOriginal hok' hclose
  exact ⟨hm.trans hm', he, hl⟩

theorem annotate_cases (h : j.annotate key facts = .ok j') :
    (∀ other, j'.operations.get? other = (j.operations.get? other).map fun row =>
      if row.command.id = key then
        { row with receipt := withSequence (row.receipt.merge facts) (j.lastSequence + 1) }
      else row) ∧ j'.events = j.events ∧ j'.lastSequence = j.lastSequence + 1 := by
  unfold annotate at h
  simp only [bind_eq_ok] at h
  obtain ⟨-, -, ⟨m, j₁⟩, hseq, h⟩ := h
  obtain ⟨rfl, rfl⟩ := nextSequence_eq_ok hseq
  obtain rfl := pure_eq_ok.mp h
  refine ⟨fun other => ?_, rfl, rfl⟩
  rw [Table.get?_update]
  cases hrow : j.operations.get? other with
  | none => rfl
  | some row =>
    by_cases hk : row.command.id = key
    · have hop : j.operation key = row.receipt :=
        operation_eq (by rw [← hk, (Table.get?_eq_some.mp hrow).2, hrow])
      simp [hk, hop]
    · simp [hk]

theorem moves_annotate (hok : j.RowsOk) (hfacts : Evidence facts)
    (h : j.annotate key facts = .ok j') :
    Moves (j.lastSequence + 1) j j' ∧ j'.events = j.events ∧
      j'.lastSequence = j.lastSequence + 1 := by
  obtain ⟨hget, he, hl⟩ := annotate_cases h
  refine ⟨⟨fun other row hrow => ?_, fun other hn => ?_⟩, he, hl⟩
  · rw [hget, hrow]
    refine ⟨_, rfl, ?_⟩
    by_cases hk : row.command.id = key
    · simp only [hk, if_true]
      have hrok := hok other row hrow
      have hf := Follows.annotate (n := j.lastSequence + 1) hrok.kept hfacts
      refine ⟨rfl, Or.inr ⟨hf, hf.kept, ?_⟩⟩
      have hs : (withSequence (row.receipt.merge facts) (j.lastSequence + 1)).get "status" =
          row.receipt.get "status" :=
        get_congr (by simp [withSequence, hfacts "status" (by simp)])
      rw [hs]
      exact hrok.observing
    · simp only [hk, if_false]
      exact ⟨rfl, Or.inl rfl⟩
  · rw [hget, hn]
    rfl

/-- An event that is projected moves at most its own operation. -/
theorem moves_projectEvent (hok : j.RowsOk) {event : AgentEvent} {state : Option Json}
    (h : j.projectEvent event n = .ok (state, j')) :
    Moves n j j' ∧ j'.events = j.events ∧ j'.lastSequence = j.lastSequence ∧
      ∀ s, state = some s → s.get? "state_sequence" = some (.int n) := by
  unfold projectEvent at h
  split at h
  · cases h
    exact ⟨.refl n j, rfl, rfl, nofun⟩
  · split at h
    · cases h
      exact ⟨.refl n j, rfl, rfl, nofun⟩
    · rename_i row hrow
      simp only [bind_eq_ok] at h
      obtain ⟨s, hs, observing, hover, h⟩ := h
      cases h
      have hf := Follows.fold (hok _ row hrow).kept hs
      refine ⟨.write fun row' hrow' => ?_, rfl, rfl, fun s' he => ?_⟩
      · obtain rfl := Option.some.inj (hrow.symm.trans hrow')
        exact ⟨hf, observing_eq hover⟩
      · cases he
        exact hf.sequence

/-! Runs. -/

/-- Orders are handed out in sequence, and every row carries one of them. -/
structure Wf (j : Journal) : Prop where
  rows : j.RowsOk
  receipts : ∀ key row, j.operations.get? key = some row →
    ∃ m ≤ j.lastSequence, row.receipt.get? "state_sequence" = some (.int m)
  events : ∀ row ∈ j.events.rows, row.sequence ≤ j.lastSequence ∧
    ∀ s, row.operationState = some s → s.get? "state_sequence" = some (.int row.sequence)

/-- A later journal: receipts that changed carry a sequence that was not handed out before. -/
structure Later (j j' : Journal) : Prop where
  sequence : j.lastSequence ≤ j'.lastSequence
  rows : ∀ key row, j.operations.get? key = some row →
    ∃ row', j'.operations.get? key = some row' ∧ row'.command = row.command ∧
      (row'.receipt = row.receipt ∨
        ∃ m, j.lastSequence < m ∧ Follows m row.receipt row'.receipt)

theorem Later.refl (j : Journal) : Later j j :=
  ⟨Nat.le_refl _, fun _ row h => ⟨row, h, rfl, Or.inl rfl⟩⟩

theorem Later.trans {j₁ j₂ j₃ : Journal} (h : Later j₁ j₂) (h' : Later j₂ j₃) : Later j₁ j₃ := by
  have hle := h.sequence
  refine ⟨Nat.le_trans hle h'.sequence, fun key row hrow => ?_⟩
  obtain ⟨row₂, hrow₂, hc, hm⟩ := h.rows key row hrow
  obtain ⟨row₃, hrow₃, hc', hm'⟩ := h'.rows key row₂ hrow₂
  refine ⟨row₃, hrow₃, hc'.trans hc, ?_⟩
  rcases hm with he | ⟨m, hlt, hf⟩
  · rcases hm' with he' | ⟨m', hlt', hf'⟩
    · exact Or.inl (he'.trans he)
    · exact Or.inr ⟨m', by omega, he ▸ hf'⟩
  · rcases hm' with he' | ⟨m', hlt', hf'⟩
    · exact Or.inr ⟨m, hlt, he' ▸ hf⟩
    · exact Or.inr ⟨m', by omega, hf.trans hf'⟩

theorem Moves.later (hn : j.lastSequence < n) (hl : j.lastSequence ≤ j'.lastSequence)
    (h : Moves n j j') : Later j j' := by
  refine ⟨hl, fun key row hrow => ?_⟩
  obtain ⟨row', hrow', hc, hm⟩ := h.rows key row hrow
  refine ⟨row', hrow', hc, ?_⟩
  rcases hm with rfl | ⟨hf, -⟩
  · exact Or.inl rfl
  · exact Or.inr ⟨n, hn, hf⟩

theorem Wf.moves (h : j.Wf) (hm : Moves n j j') (hl : j'.lastSequence = n)
    (hn : j.lastSequence < n)
    (he : ∀ row ∈ j'.events.rows, row ∈ j.events.rows ∨ row.sequence ≤ j'.lastSequence ∧
      ∀ s, row.operationState = some s → s.get? "state_sequence" = some (.int row.sequence)) :
    j'.Wf := by
  refine ⟨h.rows.moves hm, fun key row' hrow' => ?_, fun row hrow => ?_⟩
  · cases hrow : j.operations.get? key with
    | none =>
      rw [hm.fresh key hrow] at hrow'
      cases hrow'
    | some row =>
      obtain ⟨row₁, hrow₁, -, hmoved⟩ := hm.rows key row hrow
      obtain rfl := Option.some.inj (hrow'.symm.trans hrow₁)
      rcases hmoved with rfl | ⟨hf, -⟩
      · obtain ⟨m, hle, hs⟩ := h.receipts key _ hrow
        exact ⟨m, by omega, hs⟩
      · exact ⟨n, Nat.le_of_eq hl.symm, hf.sequence⟩
  · rcases he row hrow with hold | hnew
    · obtain ⟨hle, hs⟩ := h.events row hold
      exact ⟨by omega, hs⟩
    · exact hnew

theorem kept_initialReceipt (c : Command) :
    Kept (initialReceipt c) ∧ (initialReceipt c).get "status" = .str "unknown" ∧
      (initialReceipt c).get? "state_sequence" = some (.int 0) := by
  have hkeys : ∀ (keys : List String) (r : Json) (k : String), k ∉ keys →
      (keys.foldl (fun result key =>
        if c.fields.get key ≠ .null then result.set key (c.fields.get key) else result) r).get? k =
          r.get? k := by
    intro keys
    induction keys with
    | nil => exact fun _ _ _ => rfl
    | cons key keys ih =>
      intro r k hk
      obtain ⟨hne, hk⟩ := List.ne_and_not_mem_of_not_mem_cons hk
      rw [List.foldl_cons, ih _ k hk]
      split
      · simp [hne]
      · rfl
  have hget : ∀ k ∈ ["status", "state_sequence"], (initialReceipt c).get? k =
      (Json.obj [("status", .str "unknown"), ("reason", .str "original_dispatch_not_confirmed"),
        ("state_sequence", .int 0)]).get? k := by
    intro k hk
    unfold initialReceipt
    have hnot : k ∉ ["session_id", "execution_id", "run_id"] := by
      simp only [List.mem_cons, List.not_mem_nil, or_false] at hk
      rcases hk with rfl | rfl
      · decide
      · decide
    rw [hkeys _ _ k hnot]
    have hp : k ≠ "pending" := by
      simp only [List.mem_cons, List.not_mem_nil, or_false] at hk
      rcases hk with rfl | rfl
      · decide
      · decide
    split
    · simp [hp]
    · rfl
  have hstatus : (initialReceipt c).get? "status" = some (.str "unknown") :=
    (hget "status" (by simp)).trans rfl
  have hunknown : (initialReceipt c).get "status" = .str "unknown" := by
    rw [Json.get_eq, hstatus]
    rfl
  refine ⟨⟨has_eq_true.mpr ⟨_, hstatus⟩, fun ht => ?_⟩, hunknown,
    (hget "state_sequence" (by simp)).trans rfl⟩
  rw [hunknown] at ht
  exact absurd ht (by decide)

/-- A call with evidence that leaves the lifecycle alone. -/
def Lawful : JournalAction → Prop
  | .annotate _ facts => Evidence facts
  | _ => True

def Step (digest : Json → Option String) (j : Journal) (a : JournalAction) (j' : Journal) : Prop :=
  Lawful a ∧ j' = j.call digest a

theorem begin_cases {digest : Json → Option String} {command : Command}
    (h : j.begin digest command = .ok j') :
    j' = j ∨ ∃ c, originalCommand digest command = .ok c ∧ j.operations.get? c.id = none ∧
      j' = { j with operations := j.operations.insert ⟨c, c.observed, initialReceipt c⟩ } := by
  unfold begin at h
  simp only [bind_eq_ok] at h
  obtain ⟨c, hc, h⟩ := h
  split at h
  · simp only [bind_eq_ok, pure_eq_ok] at h
    obtain ⟨-, -, rfl⟩ := h
    exact Or.inl rfl
  · rename_i hn
    exact Or.inr ⟨c, hc, hn, (pure_eq_ok.mp h).symm⟩

theorem append_cases (hok : j.RowsOk) {event : AgentEvent} (h : j.append event = .ok j') :
    j.stale event = .ok true ∧ j' = j ∨
      (j.events.get? event.eventId).isSome = true ∧
        j' = { j with lastSequence := j.lastSequence + 1 } ∨
      j.stale event = .ok false ∧ j.events.get? event.eventId = none ∧
        Moves (j.lastSequence + 1) j j' ∧ j'.lastSequence = j.lastSequence + 1 ∧
        ∃ state j₁, j'.events = j.events.insert
            ⟨j.lastSequence + 1, { event with snapshotSequence := none }, state⟩ ∧
          (∀ s, state = some s → s.get? "state_sequence" = some (.int (j.lastSequence + 1))) ∧
          projectEvent { j with lastSequence := j.lastSequence + 1 }
            { event with snapshotSequence := none } (j.lastSequence + 1) = .ok (state, j₁) ∧
          j'.operations = j₁.operations := by
  unfold append at h
  simp only [bind_eq_ok] at h
  obtain ⟨stale, hstale, h⟩ := h
  cases stale with
  | true => exact Or.inl ⟨hstale, (pure_eq_ok.mp h).symm⟩
  | false =>
    right
    simp only [Bool.false_eq_true, if_false] at h
    split at h
    · rename_i hsome
      exact Or.inl ⟨hsome, (pure_eq_ok.mp h).symm⟩
    · rename_i hnone
      right
      simp only [bind_eq_ok, pure_eq_ok] at h
      obtain ⟨⟨state, j₁⟩, hproject, rfl⟩ := h
      obtain ⟨hm, he, hl, hs⟩ := moves_projectEvent (j := { j with
        lastSequence := j.lastSequence + 1 }) hok hproject
      refine ⟨hstale, by simpa using hnone, ⟨hm.rows, hm.fresh⟩, hl, state, j₁, ?_, hs, hproject,
        rfl⟩
      exact congrArg (fun events => Table.insert events _) he

theorem wf_empty : empty.Wf :=
  ⟨fun _ _ h => (nomatch h), fun _ _ h => (nomatch h), fun _ h => (nomatch h)⟩

theorem wf_call (digest : Json → Option String) (h : j.Wf) {a : JournalAction} (ha : Lawful a) :
    (j.call digest a).Wf ∧ Later j (j.call digest a) := by
  unfold call
  cases hact : j.act digest a with
  | error e => exact ⟨h, .refl j⟩
  | ok j' =>
    show j'.Wf ∧ Later j j'
    have hmoves : ∀ {j' : Journal}, Moves (j.lastSequence + 1) j j' → j'.events = j.events →
        j'.lastSequence = j.lastSequence + 1 → j'.Wf ∧ Later j j' := by
      intro j' hm he hl
      exact ⟨h.moves hm hl (Nat.lt_succ_self _) fun row hrow => Or.inl (he ▸ hrow),
        hm.later (Nat.lt_succ_self _) (by omega)⟩
    cases a with
    | begin command =>
      rcases begin_cases hact with rfl | ⟨c, -, hn, rfl⟩
      · exact ⟨h, .refl _⟩
      · obtain ⟨hk, hs, hz⟩ := kept_initialReceipt c
        have hnew : ∀ key row, (j.operations.insert ⟨c, c.observed, initialReceipt c⟩).get? key =
            some row → j.operations.get? key = some row ∨
              row = ⟨c, c.observed, initialReceipt c⟩ := by
          intro key row hrow
          rw [Table.get?_insert] at hrow
          cases hg : j.operations.get? key with
          | some r =>
            rw [hg] at hrow
            exact Or.inl hrow
          | none =>
            rw [hg, Option.none_or, Option.ite_none_right_eq_some] at hrow
            exact Or.inr (Option.some.inj hrow.2).symm
        refine ⟨⟨fun key row hrow => ?_, fun key row hrow => ?_, h.events⟩, Nat.le_refl _,
          fun key row hrow => ⟨row, Table.get?_insert_of_some hrow, rfl, Or.inl rfl⟩⟩
        · rcases hnew key row hrow with hold | rfl
          · exact h.rows key row hold
          · refine ⟨hk, ?_⟩
            rw [hs]
            exact (Bool.and_true _).symm
        · rcases hnew key row hrow with hold | rfl
          · exact h.receipts key row hold
          · exact ⟨0, Nat.zero_le _, hz⟩
    | append event =>
      rcases append_cases h.rows hact with ⟨-, rfl⟩ | ⟨-, rfl⟩ | ⟨-, -, hm, hl, state, -, he, hs, -⟩
      · exact ⟨h, .refl _⟩
      · have hm := Moves.refl (j.lastSequence + 1) j
        exact hmoves ⟨hm.rows, hm.fresh⟩ rfl rfl
      · refine ⟨h.moves hm hl (Nat.lt_succ_self _) fun row hrow => ?_,
          hm.later (Nat.lt_succ_self _) (by omega)⟩
        rw [he] at hrow
        rcases Table.mem_insert.mp hrow with hold | ⟨rfl, -⟩
        · exact Or.inl hold
        · exact Or.inr ⟨Nat.le_of_eq hl.symm, hs⟩
    | complete key response =>
      obtain ⟨hm, he, hl⟩ := moves_complete h.rows hact
      exact hmoves hm he hl
    | annotate key facts =>
      obtain ⟨hm, he, hl⟩ := moves_annotate h.rows ha hact
      exact hmoves hm he hl
    | ack key =>
      obtain rfl := Except.ok.inj hact
      refine ⟨⟨h.rows, h.receipts, fun row hrow => ?_⟩, Nat.le_refl _, fun key' row hrow =>
        ⟨row, hrow, rfl, Or.inl rfl⟩⟩
      exact h.events row (List.mem_of_mem_filter hrow)

theorem wf_run {digest : Json → Option String} (h : j.Wf) {as : List JournalAction}
    (hr : Run (Step digest) j as j') : j'.Wf := by
  refine hr.invariant (fun j a j' hw hs => ?_) h
  obtain ⟨ha, rfl⟩ := hs
  exact (wf_call _ hw ha).1

theorem later_run {digest : Json → Option String} (h : j.Wf) {as : List JournalAction}
    (hr : Run (Step digest) j as j') : Later j j' := by
  have hstep : ∀ j a j', Wf j → Step digest j a j' → Wf j' ∧ Later j j' := by
    rintro j a _ hw ⟨ha, rfl⟩
    exact wf_call _ hw ha
  exact Run.rel Later.refl Later.trans hstep hr h

/-! Closed operations. -/

/-- The operation is over, and detached. -/
def Detached (j : Journal) (key : String) : Prop :=
  ∃ row, j.operations.get? key = some row ∧ terminal (row.receipt.get "status") = true ∧
    row.receipt.get "detached" = .bool true

theorem Later.terminal (h : Later j j') {row row' : OperationRow}
    (hrow : j.operations.get? key = some row) (hrow' : j'.operations.get? key = some row')
    (ht : Connector.terminal (row.receipt.get "status") = true) :
    row'.receipt.get? "status" = row.receipt.get? "status" ∧
      row'.receipt.get? "pending" = row.receipt.get? "pending" ∧
      (row.receipt.get "detached" = .bool true → row'.receipt.get "detached" = .bool true) := by
  obtain ⟨row₁, hrow₁, -, hm⟩ := h.rows key row hrow
  obtain rfl := Option.some.inj (hrow'.symm.trans hrow₁)
  rcases hm with he | ⟨m, -, hf⟩
  · rw [he]
    exact ⟨rfl, rfl, id⟩
  · exact ⟨(hf.final ht).1, (hf.final ht).2, hf.detached ht⟩

theorem Detached.later (hd : j.Detached key) (h : Later j j') : j'.Detached key := by
  obtain ⟨row, hrow, ht, hdet⟩ := hd
  obtain ⟨row', hrow', -⟩ := h.rows key row hrow
  obtain ⟨hs, -, hkeep⟩ := h.terminal hrow hrow' ht
  refine ⟨row', hrow', ?_, hkeep hdet⟩
  rw [get_congr hs]
  exact ht

/-- No event of a detached operation gets into the journal. -/
theorem events_of_detached {digest : Json → Option String} (h : j.Wf) (hd : j.Detached key)
    (hkey : key ≠ "") {a : JournalAction} {e : EventRow}
    (he : e ∈ (j.call digest a).events.rows) (hop : e.event.operationId = some key)
    (ha : Lawful a) : e ∈ j.events.rows := by
  unfold call at he
  cases hact : j.act digest a with
  | error _ =>
    rw [hact] at he
    exact he
  | ok j' =>
    rw [hact] at he
    have he : e ∈ j'.events.rows := he
    cases a with
    | begin command =>
      rcases begin_cases hact with rfl | ⟨c, -, -, rfl⟩
      · exact he
      · exact he
    | append event =>
      rcases append_cases h.rows hact with ⟨-, rfl⟩ | ⟨-, rfl⟩ | ⟨hstale, -, -, -, state, -, hev, -⟩
      · exact he
      · exact he
      · rw [hev] at he
        rcases Table.mem_insert.mp he with hold | ⟨rfl, -⟩
        · exact hold
        · -- the guard sees the detached receipt
          obtain ⟨row, hrow, -, hdet⟩ := hd
          have hop : event.operationId = some key := hop
          unfold stale at hstale
          rw [hop] at hstale
          split at hstale
          · rename_i hn
            cases hn
          · rename_i hn
            exact absurd (Option.some.inj hn) hkey
          · rename_i key' _ hk
            obtain rfl := Option.some.inj hk
            simp only [operation_eq hrow, hdet, Json.truthy, if_true, pure_eq_ok] at hstale
            cases hstale
    | complete key response =>
      rwa [(moves_complete h.rows hact).2.1] at he
    | annotate key facts =>
      rwa [(moves_annotate h.rows ha hact).2.1] at he
    | ack key =>
      obtain rfl := Except.ok.inj hact
      exact List.mem_of_mem_filter he

theorem events_of_detached_run {digest : Json → Option String} (h : j.Wf) (hd : j.Detached key)
    (hkey : key ≠ "") {as : List JournalAction} (hr : Run (Step digest) j as j') {e : EventRow}
    (he : e ∈ j'.events.rows) (hop : e.event.operationId = some key) : e ∈ j.events.rows := by
  induction hr with
  | nil => exact he
  | @cons j j₁ j₂ a as hs hr ih =>
    obtain ⟨ha, rfl⟩ := hs
    obtain ⟨hw, hl⟩ := wf_call digest h ha
    exact events_of_detached h hd hkey (ih hw (hd.later hl) he) hop ha

theorem closed_closeOriginal {command : Command} {original : String}
    (h : j.closeOriginal command result n = .ok j') (hc : closes command result = some original)
    {row : OperationRow} (hrow : j'.operations.get? original = some row) :
    Connector.terminal (row.receipt.get "status") = true ∧
      (command.action = "detach" → row.receipt.get "detached" = .bool true) := by
  rcases closeOriginal_cases h with ⟨hn, -⟩ |
    ⟨original', facts, state, hc', hstate, ht, ⟨hact, rfl⟩ | ⟨hact, rfl⟩⟩
  · rw [hc] at hn
    cases hn
  · obtain rfl := Option.some.inj (hc.symm.trans hc')
    rw [get?_write] at hrow
    obtain ⟨row₀, hrow₀, rfl⟩ := Option.map_eq_some_iff.mp hrow
    rw [if_pos (Table.get?_eq_some.mp hrow₀).2]
    refine ⟨?_, fun _ => ?_⟩
    · rw [get_setDetached (by decide)]
      exact terminal_fold hstate ht
    · rw [Json.get_eq, Json.get?_set]
      rfl
  · obtain rfl := Option.some.inj (hc.symm.trans hc')
    rw [get?_write] at hrow
    obtain ⟨row₀, hrow₀, rfl⟩ := Option.map_eq_some_iff.mp hrow
    rw [if_pos (Table.get?_eq_some.mp hrow₀).2]
    exact ⟨terminal_fold hstate ht, fun hd => absurd hd hact⟩

/-- An event row leaves with its own acknowledgement only. -/
theorem mem_events_call {digest : Json → Option String} (h : j.Wf) {a : JournalAction}
    (ha : Lawful a) {e : EventRow} (he : e ∈ j.events.rows) (hack : a ≠ .ack e.event.eventId) :
    e ∈ (j.call digest a).events.rows := by
  unfold call
  cases hact : j.act digest a with
  | error _ => exact he
  | ok j' =>
    show e ∈ j'.events.rows
    cases a with
    | begin command =>
      rcases begin_cases hact with rfl | ⟨c, -, -, rfl⟩
      · exact he
      · exact he
    | append event =>
      rcases append_cases h.rows hact with ⟨-, rfl⟩ | ⟨-, rfl⟩ | ⟨-, -, -, -, state, -, hev, -⟩
      · exact he
      · exact he
      · rw [hev]
        exact Table.mem_insert.mpr (Or.inl he)
    | complete key response =>
      rwa [(moves_complete h.rows hact).2.1]
    | annotate key facts =>
      rwa [(moves_annotate h.rows ha hact).2.1]
    | ack key =>
      obtain rfl := Except.ok.inj hact
      refine List.mem_filter.mpr ⟨he, ?_⟩
      have hne : e.event.eventId ≠ key := fun hk => hack (by rw [hk])
      simp [hne]

theorem mem_events_run {digest : Json → Option String} (h : j.Wf) {as : List JournalAction}
    (hr : Run (Step digest) j as j') {e : EventRow} (he : e ∈ j.events.rows)
    (hack : JournalAction.ack e.event.eventId ∉ as) : e ∈ j'.events.rows := by
  induction hr with
  | nil => exact he
  | @cons j j₁ j₂ a as hs hr ih =>
    obtain ⟨ha, rfl⟩ := hs
    obtain ⟨hne, hack⟩ := not_or.mp (mt List.mem_cons.mpr hack)
    exact ih (wf_call digest h ha).1 (mem_events_call h ha he (Ne.symm hne)) hack

/-- An event whose row waits for its acknowledgement is not projected again. -/
theorem append_again (h : j.Wf) {event : AgentEvent} {e : EventRow} (he : e ∈ j.events.rows)
    (hid : e.event.eventId = event.eventId) (ha : j.append event = .ok j') :
    j'.operations = j.operations ∧ j'.events = j.events := by
  have hget : j.events.get? event.eventId = some e := Table.get?_eq_some.mpr ⟨he, hid⟩
  rcases append_cases h.rows ha with ⟨-, rfl⟩ | ⟨-, rfl⟩ | ⟨-, hnone, -⟩
  · exact ⟨rfl, rfl⟩
  · exact ⟨rfl, rfl⟩
  · rw [hget] at hnone
    cases hnone

theorem observations_eq (h : j.RowsOk) : j.observations =
    (j.operations.rows.filter fun row =>
      row.command.observed && !Connector.terminal (row.receipt.get "status")).map
        fun row => (row.command, row.receipt) := by
  unfold observations
  congr 1
  refine List.filter_congr fun row hrow => ?_
  exact (h row.command.id row (Table.mem_rows.mp hrow)).observing

/-- What a receipt keeps over a run. -/
structure Keeps (j : Journal) (row row' : OperationRow) : Prop where
  sequence : ∃ m m' : Nat, row.receipt.get? "state_sequence" = some (.int m) ∧
    row'.receipt.get? "state_sequence" = some (.int m') ∧ m ≤ m' ∧
    (row'.receipt ≠ row.receipt → j.lastSequence < m')
  final : Connector.terminal (row.receipt.get "status") = true →
    row'.receipt.get? "status" = row.receipt.get? "status" ∧
      row'.receipt.get? "pending" = row.receipt.get? "pending"
  admitted : row.receipt.get "admitted" = .bool true → row'.receipt.get "admitted" = .bool true

theorem Later.keeps (h : Later j j') (hw : j.Wf) {row : OperationRow}
    (hrow : j.operations.get? key = some row) :
    ∃ row', j'.operations.get? key = some row' ∧ row'.command = row.command ∧ Keeps j row row' := by
  obtain ⟨row', hrow', hc, hm⟩ := h.rows key row hrow
  obtain ⟨m, hle, hseq⟩ := hw.receipts key row hrow
  refine ⟨row', hrow', hc, ?_⟩
  rcases hm with he | ⟨m', hlt, hf⟩
  · refine ⟨⟨m, m, hseq, he ▸ hseq, Nat.le_refl _, fun hne => absurd he hne⟩, ?_, ?_⟩
    · rw [he]
      exact fun _ => ⟨rfl, rfl⟩
    · rw [he]
      exact id
  · exact ⟨⟨m, m', hseq, hf.sequence, by omega, fun _ => hlt⟩, hf.final, hf.admitted⟩

/-- Over every run: receipts are ordered and final, stored events carry their own order, the
observations are the unfinished operations, an event is projected once until its acknowledgement,
and a detached operation stores no further event. -/
theorem receipts_final (digest : Json → Option String) {as : List JournalAction}
    (h : Run (Step digest) empty as j) :
    (∀ row ∈ j.events.rows, ∀ s, row.operationState = some s →
      s.get? "state_sequence" = some (.int row.sequence)) ∧
    j.observations = (j.operations.rows.filter fun row =>
      row.command.observed && !Connector.terminal (row.receipt.get "status")).map
        (fun row => (row.command, row.receipt)) ∧
    (∀ key response row j' original, j.operations.get? key = some row →
      j.complete key response = .ok j' →
      closes row.command (responseState response) = some original →
      ∀ row', j'.operations.get? original = some row' →
        Connector.terminal (row'.receipt.get "status") = true ∧
          (row.command.action = "detach" → row'.receipt.get "detached" = .bool true)) ∧
    (∀ event, ∀ e ∈ j.events.rows, e.event.eventId = event.eventId →
      ∀ j', j.append event = .ok j' → j'.operations = j.operations ∧ j'.events = j.events) ∧
    ∀ bs j', Run (Step digest) j bs j' →
      (∀ e ∈ j.events.rows, JournalAction.ack e.event.eventId ∉ bs → e ∈ j'.events.rows) ∧
      (∀ key row, j.operations.get? key = some row → ∃ row', j'.operations.get? key = some row' ∧
        row'.command = row.command ∧ Keeps j row row') ∧
      ∀ key, key ≠ "" → j.Detached key → ∀ e ∈ j'.events.rows,
        e.event.operationId = some key → e ∈ j.events.rows := by
  have hw := wf_run wf_empty h
  refine ⟨fun row hrow => (hw.events row hrow).2, observations_eq hw.rows, ?_,
    fun event e he hid j' => append_again hw he hid, fun bs j' hr => ⟨fun e he hack =>
      mem_events_run hw hr he hack, fun key row hrow => (later_run hw hr).keeps hw hrow,
      fun key hkey hd e he => events_of_detached_run hw hd hkey hr he⟩⟩
  intro key response row j' original hrow hc hcloses row' hrow'
  obtain ⟨row₀, state, hrow₀, hstate, hclose⟩ := complete_cases hc
  obtain rfl := Option.some.inj (hrow.symm.trans hrow₀)
  exact closed_closeOriginal hclose hcloses hrow'

/-- A prompt is admitted, runs and completes; its terminal event waits. -/
def promptRun : List JournalAction :=
  [.begin { id := "p", action := "prompt" },
    .complete "p" (.result (.obj [("admitted", .bool true), ("status", .str "running")])),
    .append
      { eventId := "e", kind := "completed", operationId := some "p"
        payload := .obj [("status", .str "completed")] }]

theorem receipts_final_sample :
    ∃ j, Run (Step fun _ => none) empty promptRun j ∧
      (j.operation "p").get "status" = .str "completed" ∧
      j.observations = (j.operations.rows.filter fun row =>
        row.command.observed && !Connector.terminal (row.receipt.get "status")).map
          fun row => (row.command, row.receipt) := by
  have hrun : Run (Step fun _ => none) empty promptRun
      (promptRun.foldl (call fun _ => none) empty) :=
    .cons ⟨trivial, rfl⟩ (.cons ⟨trivial, rfl⟩ (.cons ⟨trivial, rfl⟩ (.nil _)))
  exact ⟨_, hrun, by decide +kernel, (receipts_final _ hrun).2.1⟩

/-- `annotate` merges whatever facts it is given, and the guard of `append` reads an empty identity
as none: admission and detachment can be taken back, and an operation without a name goes on. -/
theorem annotated_lifecycle_changes :
    let call := call fun _ => none
    let admitted := [.begin { id := "p", action := "prompt" },
      .complete "p" (.result (.obj [("admitted", .bool true)]))].foldl call empty
    let detach (key : String) := [.begin { id := key, action := "watch" },
      .begin ⟨"d", "detach", .obj [("arguments", .obj [("operation_id", .str key)])]⟩,
      .complete "d" (.result (.obj [("admitted", .bool true), ("detached", .bool true)]))].foldl
        call empty
    let event (key : String) : JournalAction :=
      .append { eventId := "e", kind := "progress", operationId := some key }
    ((admitted.operation "p").get "admitted" = .bool true ∧
      ((call admitted (.annotate "p" (.obj [("admitted", .bool false)]))).operation "p").get
        "admitted" = .bool false) ∧
    (((detach "w").operation "w").get "detached" = .bool true ∧
      (call (call (detach "w") (.annotate "w" (.obj [("detached", .bool false)])))
        (event "w")).events.rows.length = 1) ∧
    ((detach "").operation "").get "detached" = .bool true ∧
      (call (detach "") (event "")).events.rows.length = 1 := by
  decide +kernel

end Journal

end Yuki.Connector

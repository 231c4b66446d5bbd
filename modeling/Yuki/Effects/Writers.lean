import Yuki.Effects.Forward

/-! What each receipt writer does: how it changes the rows it reads, and that it
leaves budgets and counters alone unless it admits a dispatch. -/

namespace Yuki

open Json WorkRepository

/-- Neither budgets nor any Work's counters change. -/
def Uncharged (db db' : Db) : Prop :=
  db'.works = db.works ∧ db'.budgets = db.budgets

theorem Uncharged.refl (db : Db) : Uncharged db db := ⟨rfl, rfl⟩

theorem Uncharged.trans {db db' db'' : Db} (h : Uncharged db db') (h' : Uncharged db' db'') :
    Uncharged db db'' :=
  ⟨h'.1.trans h.1, h'.2.trans h.2⟩

theorem Uncharged.setEffect (db : Db) (key : String) (state : EffectState) (receipt : JsonText)
    (now : Time) : Uncharged db (db.setEffect key state receipt now) := ⟨rfl, rfl⟩

theorem publishRefs_frame {db db' : Db} {now : Time} {policy : StoragePolicy} {workId : String}
    {prepared : List ObjectRow} (h : publishRefs db now policy workId prepared = .ok db') :
    db'.effects = db.effects ∧ Uncharged db db' := by
  simp only [publishRefs, bind_eq_ok, pure_eq_ok] at h
  obtain ⟨-, -, -, -, -, -, rfl⟩ := h
  exact ⟨rfl, rfl, rfl⟩

theorem prepareEffect_cases {db db' : Db} {now : Time} {lease : WorkLease}
    {identity key kind : String} {outcome invocation composition : Option Json} {b : Bool}
    (h : prepareEffect db now lease identity key kind outcome invocation composition =
      .ok (db', b)) :
    EffectsForward db db' ∧ Uncharged db db' := by
  simp only [prepareEffect, bind_eq_ok] at h
  obtain ⟨-, -, -, -, h⟩ := h
  split at h
  · obtain ⟨rfl, -⟩ := Prod.mk.inj (pure_eq_ok.mp h)
    exact ⟨.refl db, .refl db⟩
  · obtain ⟨-, -, h⟩ := bind_eq_ok.mp h
    obtain ⟨rfl, -⟩ := Prod.mk.inj (pure_eq_ok.mp h)
    exact ⟨.insert rfl, rfl, rfl⟩

/-- The parts of the marker an admission writes. -/
theorem dispatchReceipt_cases {receipt marked : Json} {charge : Bool}
    (h : dispatchReceipt receipt charge = .ok marked) :
    ∃ next, marked = receipt.set "invocation" ((((invocationOf receipt).set "dispatch_started"
      (.bool true)).set "budget_admitted" (.bool charge)).set "revision" next) := by
  simp only [dispatchReceipt, bind_eq_ok, pure_eq_ok] at h
  obtain ⟨-, -, next, -, rfl⟩ := h
  exact ⟨next, rfl⟩

theorem get?_invocation {receipt : Json} (h : (invocationOf receipt).isObj = true) :
    receipt.get? "invocation" = some (invocationOf receipt) := by
  unfold invocationOf at h ⊢
  rw [get_eq] at h ⊢
  cases hg : receipt.get? "invocation" with
  | none => simp [hg, isObj] at h
  | some v => rfl

theorem dispatchReceipt_forward {receipt marked : Json} {charge : Bool}
    (hv : (invocationOf receipt).isObj = true)
    (h : dispatchReceipt receipt charge = .ok marked) : ReceiptForward receipt marked := by
  obtain ⟨next, rfl⟩ := dispatchReceipt_cases h
  refine .set_invocation (get?_invocation hv) ?_
  refine .set (.set (.set (.refl _) (by decide) (fun _ => rfl) (by simp)) (by decide) (by simp)
    (by simp)) (by decide) (by simp) (by simp)

/-- What an admission that returns may have done. -/
theorem admitDispatch_cases {seen db db' : Db} {now : Time} {lease : WorkLease}
    {identity key : String} {charge b : Bool}
    (h : admitDispatch seen db now lease identity key charge = .ok (db', b)) :
    (b = false ∧ db' = db) ∨
    ∃ e marked, b = true ∧ db.effects.get? key = some e ∧ e.workId = identity ∧
      e.state = .prepared ∧ e.dispatched = false ∧
      versionOne (invocationOf e.receiptJson.value) = true ∧
      dispatchReceipt e.receiptJson.value charge = .ok marked ∧
      if charge then
        chargeDispatch (db.setEffect key .prepared (encodeJson marked) now) now lease identity =
          .ok db'
      else db' = db.setEffect key .prepared (encodeJson marked) now := by
  simp only [admitDispatch, bind_eq_ok, expect_eq_ok, require_eq_ok] at h
  obtain ⟨original, -, -, hv, h⟩ := h
  split at h
  · obtain ⟨rfl, rfl⟩ := Prod.mk.inj (pure_eq_ok.mp h)
    exact .inl ⟨rfl, rfl⟩
  rename_i hopen
  obtain ⟨marked, hm, h⟩ := bind_eq_ok.mp h
  obtain ⟨-, -, h⟩ := bind_eq_ok.mp h
  split at h
  · rename_i hcas
    cases he : db.effectOf key identity with
    | none => simp [he] at hcas
    | some e =>
      simp only [he, Option.any_some, Bool.and_eq_true, beq_iff_eq] at hcas
      obtain ⟨hstate, htext⟩ := hcas
      obtain ⟨hget, hwork⟩ := effectOf_eq_some.mp he
      rw [← htext] at hv hm hopen
      have hclosed : e.dispatched = false := by
        simp only [Bool.or_eq_true, not_or, Bool.not_eq_true] at hopen
        simp [EffectRow.dispatched, hopen.1]
      right
      cases charge with
      | true =>
        obtain ⟨charged, hc, h⟩ := bind_eq_ok.mp h
        obtain ⟨rfl, rfl⟩ := Prod.mk.inj (pure_eq_ok.mp h)
        exact ⟨e, marked, rfl, hget, hwork, hstate, hclosed, hv, hm, hc⟩
      | false =>
        obtain ⟨rfl, rfl⟩ := Prod.mk.inj (pure_eq_ok.mp h)
        exact ⟨e, marked, rfl, hget, hwork, hstate, hclosed, hv, hm, rfl⟩
  · obtain ⟨rfl, rfl⟩ := Prod.mk.inj (pure_eq_ok.mp h)
    exact .inl ⟨rfl, rfl⟩

theorem versionOne_isObj {v : Json} (h : versionOne v = true) : v.isObj = true := by
  simp only [versionOne, Bool.and_eq_true] at h
  exact h.1

/-- The Work a lease may act for, as it stands in the table. -/
theorem liveWork_get? {db : Db} {lease : WorkLease} {identity : String} {w : WorkRow}
    (h : liveWork db lease identity = some w) : db.works.get? identity = some w := by
  simp only [liveWork, leased, Option.filter_eq_some_iff] at h
  exact h.1.1

theorem chargeDispatch_cases {db db' : Db} {now : Time} {lease : WorkLease} {identity : String}
    (h : chargeDispatch db now lease identity = .ok db') :
    ∃ charged w, charge db identity 0 1 = .ok charged ∧ charged.works.get? identity = some w ∧
      db' = { charged with
        works := charged.works.update (fun w => w.id = identity) fun w =>
          { w with toolCalls := w.toolCalls + 1, updated := now } } := by
  simp only [chargeDispatch, bind_eq_ok, pure_eq_ok, expect_eq_ok] at h
  obtain ⟨charged, hc, w, hw, rfl⟩ := h
  exact ⟨charged, w, hc, liveWork_get? hw, rfl⟩

theorem charge_effects {db db' : Db} {identity : String} {models tools : Int}
    (h : charge db identity models tools = .ok db') : db'.effects = db.effects := by
  obtain ⟨-, -, ⟨-, -, rfl⟩ | ⟨root, b, -, -, -, rfl⟩⟩ := charge_cases h <;> rfl

theorem admitDispatch_forward {seen db db' : Db} {now : Time} {lease : WorkLease}
    {identity key : String} {charge b : Bool}
    (h : admitDispatch seen db now lease identity key charge = .ok (db', b)) :
    EffectsForward db db' := by
  rcases admitDispatch_cases h with ⟨-, rfl⟩ | ⟨e, marked, -, hget, -, hstate, -, hv, hm, h⟩
  · exact .refl db'
  · have hf : EffectsForward db (db.setEffect key .prepared (encodeJson marked) now) :=
      .setEffect now hget (by rw [hstate]; exact .refl _)
        (dispatchReceipt_forward (versionOne_isObj hv) hm).encode
    cases charge with
    | true =>
      obtain ⟨charged, w, hc, -, rfl⟩ := chargeDispatch_cases h
      have he := charge_effects hc
      exact hf.trans (.of_eq he)
    | false =>
      obtain rfl := h
      exact hf

/-- The row an admission leaves behind carries the marker. -/
theorem dispatched_of_admit {e : EffectRow} {marked : Json} {charge : Bool}
    (hv : versionOne (invocationOf e.receiptJson.value) = true)
    (hm : dispatchReceipt e.receiptJson.value charge = .ok marked) (state : EffectState)
    (now : Time) :
    EffectRow.dispatched
      { e with state := state, receiptJson := encodeJson marked, updated := now } = true := by
  obtain ⟨next, rfl⟩ := dispatchReceipt_cases hm
  simp only [versionOne, Bool.and_eq_true] at hv
  simp only [EffectRow.dispatched, versionOne, invocationOf, encodeJson, get_sortKeys,
    isObj_sortKeys, truthy_sortKeys, Bool.and_eq_true]
  have hi : ∀ w : Json, (e.receiptJson.value.set "invocation" w).get "invocation" = w := by
    simp [get_eq]
  rw [hi]
  refine ⟨⟨rfl, ?_⟩, by simp [get_eq, truthy]⟩
  have hver : ∀ w : Json, (((w.set "dispatch_started" (.bool true)).set "budget_admitted"
      (.bool charge)).set "revision" next).get "version" = w.get "version" := by
    simp [get_eq]
  rw [hver, isOne, pyEq_sortKeys_left]
  exact hv.2

theorem bindDomainReceipt_cases {db db' : Db} {now : Time} {identity key reference : String}
    {u : Unit} (h : bindDomainReceipt db now identity key reference = .ok (db', u)) :
    ∃ e, db.effects.get? key = some e ∧ bindable db identity reference e = true ∧
      db' = db.setEffect key e.state (boundReceipt e.receiptJson reference) now := by
  simp only [bindDomainReceipt, bind_eq_ok, pure_eq_ok, expect_eq_ok, Option.filter_eq_some_iff] at h
  obtain ⟨-, -, e, ⟨he, hb⟩, h⟩ := h
  exact ⟨e, he, hb, (Prod.mk.inj h).1.symm⟩

/-- A bindable row has an invocation, whose reference is free or already the same. -/
theorem bindable_invocation {db : Db} {identity reference : String} {e : EffectRow}
    (h : bindable db identity reference e = true) :
    ∃ v, e.receiptJson.value.get? "invocation" = some v ∧ v.isObj = true ∧
      ∀ s, v.get? "original_domain_ref" = some (.str s) → s = reference := by
  simp only [bindable, Bool.and_eq_true, Bool.or_eq_true] at h
  obtain ⟨⟨⟨-, hver⟩, -⟩, hf⟩ := h
  cases hi : e.receiptJson.value.get? "invocation" with
  | none => simp [Sql.jsonExtract, Sql.jsonAt, hi, Sql.Value.eq] at hver
  | some v =>
    refine ⟨v, rfl, ?_, fun s hs => ?_⟩
    · cases v <;> simp_all [Sql.jsonExtract, Sql.jsonAt, Sql.Value.eq, get?, fields, isObj]
    · simpa [Sql.jsonExtract, Sql.jsonAt, hi, hs, Sql.extracted, Sql.Value.isNull, Sql.Value.eq] using hf

theorem jsonSet_member (j : Json) {k l : String} {v : Json} (x : Json) (hj : j.get? k = some v)
    (hv : v.isObj = true) : Sql.jsonSet j [k, l] x = j.set k (v.set l x) := by
  have ho : j.isObj = true := by
    cases j <;> simp_all [get?, fields, isObj]
  simp [Sql.jsonSet, ho, getD_eq, hj, hv]

theorem boundReceipt_forward {receipt : JsonText} {reference : String} {v : Json}
    (hi : receipt.value.get? "invocation" = some v) (hv : v.isObj = true)
    (hr : ∀ s, v.get? "original_domain_ref" = some (.str s) → s = reference) :
    ReceiptForward receipt.value (boundReceipt receipt reference).value := by
  have hs : (receipt.value.set "invocation" (v.set "original_domain_ref" (.str reference))).get?
      "invocation" = some (v.set "original_domain_ref" (.str reference)) := by simp
  simp only [boundReceipt, JsonText.jsonSet]
  rw [jsonSet_member _ _ hi hv, jsonSet_member _ _ hs rfl]
  have hf : InvocationForward v (v.set "original_domain_ref" (.str reference)) :=
    .set (.refl v) (by decide) (by simp) fun _ s hs => by rw [hr s hs]
  refine (ReceiptForward.set_invocation hi hf).trans (.set_invocation hs ?_)
  exact .set (.refl _) (by decide) (by simp) (by simp)

theorem bindDomainReceipt_forward {db db' : Db} {now : Time} {identity key reference : String}
    {u : Unit} (h : bindDomainReceipt db now identity key reference = .ok (db', u)) :
    EffectsForward db db' ∧ Uncharged db db' := by
  obtain ⟨e, he, hb, rfl⟩ := bindDomainReceipt_cases h
  obtain ⟨v, hi, hv, hr⟩ := bindable_invocation hb
  exact ⟨.setEffect now he (.refl _) (boundReceipt_forward hi hv hr), .setEffect ..⟩

theorem insertIntent_forward {db db' : Db} {child : Option EffectRow}
    (h : insertIntent db child = .ok db') : EffectsForward db db' ∧ Uncharged db db' := by
  cases child with
  | none =>
    obtain rfl := Except.ok.inj h
    exact ⟨.refl db, .refl db⟩
  | some row =>
    simp only [insertIntent, bind_eq_ok, pure_eq_ok] at h
    obtain ⟨-, -, rfl⟩ := h
    exact ⟨.insert rfl, rfl, rfl⟩

/-- The parent's next receipt differs from the one read in its composition alone. -/
theorem readCodeBoundary_parent {seen : Db} {now : Time} {lease : WorkLease}
    {identity parentKey : String} {expectedRevision : Int} {composition : Json}
    {child : Option Json} {preparedRefs : List String} {decode : String → Except Err Unit}
    {binding : CodeSnapshotBinding} {sideEffecting : Bool} {boundary : CodeBoundary}
    (h : readCodeBoundary seen now lease identity parentKey expectedRevision composition child
      preparedRefs decode binding sideEffecting = .ok boundary) :
    ∃ next, boundary.parentReceipt = boundary.original.receiptJson.value.set "composition" next := by
  simp only [readCodeBoundary, bind_eq_ok, pure_eq_ok] at h
  obtain ⟨-, -, original, -, -, -, -, -, -, -, -, -, -, -, -, -, row, -, rfl⟩ := h
  exact ⟨_, rfl⟩

theorem publishCodeBoundary_forward {seen db db' : Db} {now : Time} {lease : WorkLease}
    {identity parentKey : String} {expectedRevision : Int} {composition : Json}
    {child : Option Json} {policy : StoragePolicy} {preparedRefs : List String}
    {decode : String → Except Err Unit} {prepared : List ObjectRow}
    {binding : CodeSnapshotBinding} {sideEffecting b : Bool}
    (h : publishCodeBoundary seen db now lease identity parentKey expectedRevision composition child
      policy preparedRefs decode prepared binding sideEffecting = .ok (db', b)) :
    EffectsForward db db' ∧ Uncharged db db' := by
  simp only [publishCodeBoundary, bind_eq_ok, pure_eq_ok, expect_eq_ok,
    Option.filter_eq_some_iff] at h
  obtain ⟨boundary, hb, -, -, -, -, -, -, -, -, current, ⟨hc, hcas⟩, inserted, hi, published, hp, h⟩ := h
  obtain ⟨rfl, -⟩ := Prod.mk.inj h
  obtain ⟨next, hnext⟩ := readCodeBoundary_parent hb
  obtain ⟨hget, -⟩ := effectOf_eq_some.mp hc
  simp only [Bool.and_eq_true, beq_iff_eq] at hcas
  have hf : ReceiptForward current.receiptJson.value (encodeJson boundary.parentReceipt).value := by
    rw [hnext, ← hcas.2]
    exact (ReceiptForward.set_other _ next (by decide)).encode
  have hset := EffectsForward.setEffect now hget (.refl _) hf
  obtain ⟨hins, hin⟩ := insertIntent_forward hi
  obtain ⟨hpe, hpu⟩ := publishRefs_frame hp
  exact ⟨(hset.trans hins).trans (.of_eq hpe), ((Uncharged.setEffect ..).trans hin).trans hpu⟩

/-- A prepared replacement differs from its text in the outcome alone. -/
theorem resolvePrepared_outcome {seen : Db} {seenAt : Time} {lease : WorkLease}
    {identity runId : String} {outcome : Json} {effectKey requestId : Option String}
    {prepared : List (String × JsonText × JsonText)}
    (h : resolvePrepared seen seenAt lease identity runId outcome effectKey requestId =
      .ok prepared) {p : String × JsonText × JsonText} (hp : p ∈ prepared) :
    ∃ m, p.2.2 = encodeJson (p.2.1.value.set "outcome" m) := by
  unfold resolvePrepared at h
  split at h
  · obtain rfl := pure_eq_ok.mp h
    simp at hp
  split at h
  · obtain rfl := pure_eq_ok.mp h
    simp at hp
  simp only [bind_eq_ok, pure_eq_ok] at h
  obtain ⟨-, -, -, -, -, -, found, hf, rfl⟩ := h
  obtain ⟨row, hrow, he⟩ := List.mem_filterMap.mp hp
  obtain ⟨e, -, hres⟩ := exists_of_mapM_eq_ok hf hrow
  simp only [resolvedRow, bind_eq_ok, pure_eq_ok] at hres
  obtain ⟨merged, -, hres⟩ := hres
  rw [show row = some p from he, Option.bind_eq_some_iff] at hres
  obtain ⟨m, -, hres⟩ := hres
  split at hres
  · simp at hres
  · obtain rfl := Option.some.inj hres
    exact ⟨m, rfl⟩

theorem resolveOne_forward (lease : WorkLease) (identity : String) (now : Time) (db : Db)
    {p : String × JsonText × JsonText}
    (hp : ∃ m, p.2.2 = encodeJson (p.2.1.value.set "outcome" m)) :
    EffectsForward db (resolveOne lease identity now db p) ∧
      Uncharged db (resolveOne lease identity now db p) := by
  unfold resolveOne
  split
  · rename_i e he
    simp only [Option.filter_eq_some_iff, beq_iff_eq] at he
    obtain ⟨he, htext⟩ := he
    obtain ⟨hget, -⟩ := effectOf_eq_some.mp he
    split
    · obtain ⟨m, hm⟩ := hp
      refine ⟨.setEffect now hget (.refl _) ?_, .setEffect ..⟩
      rw [hm, htext]
      exact (ReceiptForward.set_other _ m (by decide)).encode
    · exact ⟨.refl db, .refl db⟩
  · exact ⟨.refl db, .refl db⟩

theorem resolveBatch_forward (lease : WorkLease) (identity : String) (now : Time)
    (batch : List (String × JsonText × JsonText)) (db : Db)
    (hall : ∀ p ∈ batch, ∃ m, p.2.2 = encodeJson (p.2.1.value.set "outcome" m)) :
    EffectsForward db (batch.foldl (resolveOne lease identity now) db) ∧
      Uncharged db (batch.foldl (resolveOne lease identity now) db) := by
  induction batch generalizing db with
  | nil => exact ⟨.refl db, .refl db⟩
  | cons p batch ih =>
    obtain ⟨hf, hu⟩ := resolveOne_forward lease identity now db (hall p List.mem_cons_self)
    obtain ⟨hf', hu'⟩ := ih _ fun q hq => hall q (List.mem_cons_of_mem _ hq)
    exact ⟨hf.trans hf', hu.trans hu'⟩

theorem resolveRunEffects_forward {seen : Db} {seenAt : Time} {db db' : Db} {now : Time}
    {lease : WorkLease} {identity runId : String} {outcome : Json}
    {effectKey requestId : Option String} {page : Nat} {u : Unit}
    (h : resolveRunEffects seen seenAt db now lease identity runId outcome effectKey requestId page =
      .ok (db', u)) : EffectsForward db db' ∧ Uncharged db db' := by
  simp only [resolveRunEffects, bind_eq_ok] at h
  obtain ⟨prepared, hp, h⟩ := h
  split at h
  · obtain ⟨rfl, -⟩ := Prod.mk.inj (pure_eq_ok.mp h)
    exact ⟨.refl db, .refl db⟩
  obtain ⟨-, -, h⟩ := bind_eq_ok.mp h
  obtain ⟨rfl, -⟩ := Prod.mk.inj (pure_eq_ok.mp h)
  exact resolveBatch_forward lease identity now _ db fun p hmem =>
    resolvePrepared_outcome hp (List.mem_of_mem_drop (List.mem_of_mem_take hmem))

/-- Metadata the host owns stands in the candidate as it stood in the row. -/
theorem hostField_cases {previous candidate candidate' : Json} {field : String}
    (h : hostField previous field candidate = .ok candidate') :
    (∀ v, previous.get? field = some v → candidate'.get? field = some v) ∧
      ∀ k, k ≠ field → candidate'.get? k = candidate.get? k := by
  unfold hostField at h
  split at h
  · rename_i owned ho
    simp only [bind_eq_ok, pure_eq_ok] at h
    obtain ⟨-, -, rfl⟩ := h
    exact ⟨fun v hv => by simp [← hv, ho], fun k hk => by simp [hk]⟩
  · rename_i ho
    obtain rfl := Except.ok.inj h
    exact ⟨fun v hv => by simp [ho] at hv, fun _ _ => rfl⟩

theorem completeOutcome_get? {state : EffectState} {existing candidate candidate' : Json}
    (h : completeOutcome state existing candidate = .ok candidate') {k : String}
    (hk : k ≠ "outcome") : candidate'.get? k = candidate.get? k := by
  unfold completeOutcome at h
  split at h
  · obtain rfl := pure_eq_ok.mp h
    rfl
  obtain ⟨evidence, -, h⟩ := bind_eq_ok.mp h
  split at h
  · obtain ⟨-, -, h⟩ := bind_eq_ok.mp h
    obtain rfl := pure_eq_ok.mp h
    simp [hk]
  · obtain rfl := pure_eq_ok.mp h
    cases evidence <;> simp [hk]

theorem bumpInvocation_cases {candidate candidate' : Json}
    (h : bumpInvocation candidate = .ok candidate') :
    (versionOne (candidate.get "invocation") = false ∧ candidate' = candidate) ∨
    ∃ revision next, versionOne (candidate.get "invocation") = true ∧
      (candidate.get "invocation").get? "revision" = some revision ∧ revision.succ = .ok next ∧
      candidate' = candidate.set "invocation" ((candidate.get "invocation").set "revision" next) := by
  unfold bumpInvocation at h
  dsimp only at h
  split at h
  · rename_i hv
    simp only [bind_eq_ok, pure_eq_ok, expect_eq_ok] at h
    obtain ⟨revision, hr, next, hn, rfl⟩ := h
    exact .inr ⟨revision, next, hv, hr, hn, rfl⟩
  · rename_i hv
    exact .inl ⟨by simpa using hv, (Except.ok.inj h).symm⟩

theorem bumpInvocation_forward {candidate candidate' : Json}
    (h : bumpInvocation candidate = .ok candidate') : ReceiptForward candidate candidate' := by
  rcases bumpInvocation_cases h with ⟨-, rfl⟩ | ⟨revision, next, hv, -, -, rfl⟩
  · exact .refl _
  · exact .set_invocation (get?_invocation (versionOne_isObj hv))
      (.set (.refl _) (by decide) (by simp) (by simp))

/-- A rewrite is prepared only for a row whose state may still move. -/
theorem settled_false {existing : EffectRow} {state : EffectState} {candidate : Json}
    (hs : state ≠ .prepared) (h : settled existing state candidate = .ok false) :
    existing.state.Forward state := by
  unfold settled at h
  split at h
  · rename_i ha
    split at h
    · simp at h
    · simp only [bind_eq_ok, require_eq_ok] at h
      obtain ⟨-, ⟨rfl, -⟩, -⟩ := h
      exact .inl ha
  · obtain ⟨-, -, h⟩ := bind_eq_ok.mp h
    simp at h
  · rename_i hna hnf
    refine .inr ⟨?_, hs⟩
    cases hst : existing.state <;> simp_all

theorem prepareRecord_forward {existing : EffectRow} {state : EffectState} {receipt candidate : Json}
    (hs : state ≠ .prepared) (h : prepareRecord existing state receipt = .ok (some candidate)) :
    existing.state.Forward state ∧ ReceiptForward existing.receiptJson.value candidate := by
  simp only [prepareRecord, bind_eq_ok] at h
  obtain ⟨identified, hi, composed, hc, completed, ho, done, hd, h⟩ := h
  cases done with
  | true => simp at h
  | false =>
    simp only [Bool.false_eq_true, if_false, bind_eq_ok, pure_eq_ok, Option.some.injEq] at h
    obtain ⟨bumped, hb, rfl⟩ := h
    refine ⟨settled_false hs hd, ReceiptForward.trans ⟨fun v hv => ⟨v, ?_, .refl v⟩, fun hcomp => ?_⟩
      (bumpInvocation_forward hb)⟩
    · rw [completeOutcome_get? ho (by decide), (hostField_cases hc).2 _ (by decide)]
      exact (hostField_cases hi).1 v hv
    · obtain ⟨v, hv⟩ := Option.isSome_iff_exists.mp hcomp
      rw [has_eq, completeOutcome_get? ho (by decide), (hostField_cases hc).1 v hv]
      rfl

theorem recordEffect_forward {seen db db' : Db} {now : Time} {key : String} {state : EffectState}
    {receipt : Json} {policy : StoragePolicy} {prepared : List ObjectRow}
    {media : Option MediaSource} {b : Bool}
    (h : recordEffect seen db now key state receipt policy prepared media = .ok (db', b)) :
    EffectsForward db db' ∧ Uncharged db db' := by
  simp only [recordEffect, bind_eq_ok, require_eq_ok] at h
  obtain ⟨-, hs, existing, -, candidate?, hp, h⟩ := h
  split at h
  · obtain ⟨rfl, -⟩ := Prod.mk.inj (pure_eq_ok.mp h)
    exact ⟨.refl db, .refl db⟩
  rename_i candidate
  obtain ⟨-, -, h⟩ := bind_eq_ok.mp h
  split at h
  · obtain ⟨rfl, -⟩ := Prod.mk.inj (pure_eq_ok.mp h)
    exact ⟨.refl db, .refl db⟩
  rename_i e he
  simp only [Option.filter_eq_some_iff, Bool.and_eq_true, beq_iff_eq] at he
  obtain ⟨hget, hstate, htext⟩ := he
  obtain ⟨hfs, hfr⟩ := prepareRecord_forward hs hp
  rw [← hstate] at hfs
  rw [← htext] at hfr
  have hset := EffectsForward.setEffect now hget hfs hfr.encode
  obtain ⟨-, -, h⟩ := bind_eq_ok.mp h
  obtain ⟨published, hpub, h⟩ := bind_eq_ok.mp h
  obtain ⟨rfl, -⟩ := Prod.mk.inj (pure_eq_ok.mp h)
  rcases onlyIf_eq_ok.mp hpub with ⟨-, hpub⟩ | ⟨-, rfl⟩
  · obtain ⟨hpe, hpu⟩ := publishRefs_frame hpub
    exact ⟨hset.trans (.of_eq hpe), (Uncharged.setEffect ..).trans hpu⟩
  · exact ⟨hset, .setEffect ..⟩

end Yuki

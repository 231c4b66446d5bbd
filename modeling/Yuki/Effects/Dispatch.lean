import Yuki.Effects.Writers

/-! At-most-once dispatch, with exact charging, for every interleaving of the
writers of effect receipts. -/

namespace Yuki

open WorkRepository

inductive EffectOp
  | prepare (lease : WorkLease) (identity key kind : String)
      (outcome invocation composition : Option Json)
  | admission (seen : Db) (lease : WorkLease) (identity key : String) (charge : Bool)
  | bind (identity key reference : String)
  | publish (seen : Db) (lease : WorkLease) (identity parentKey : String) (expectedRevision : Int)
      (composition : Json) (child : Option Json) (policy : StoragePolicy)
      (preparedRefs : List String) (decode : String → Except Err Unit) (prepared : List ObjectRow)
      (binding : WorkRepository.CodeSnapshotBinding) (sideEffecting : Bool)
  | resolve (seen : Db) (seenAt : Time) (lease : WorkLease) (identity runId : String)
      (outcome : Json) (effectKey requestId : Option String) (page : Nat)
  | record (seen : Db) (key : String) (state : EffectState) (receipt : Json)
      (policy : StoragePolicy) (prepared : List ObjectRow)
      (media : Option WorkRepository.MediaSource)

/-- The writer of an operation at time `now`. -/
def EffectOp.exec (db : Db) (now : Time) : EffectOp → Except Err (Db × Bool)
  | prepare lease identity key kind outcome invocation composition =>
    prepareEffect db now lease identity key kind outcome invocation composition
  | admission seen lease identity key charge => admitDispatch seen db now lease identity key charge
  | bind identity key reference =>
    (bindDomainReceipt db now identity key reference).map fun r => (r.1, true)
  | publish seen lease identity parentKey expectedRevision composition child policy preparedRefs
      decode prepared binding sideEffecting =>
    publishCodeBoundary seen db now lease identity parentKey expectedRevision composition child
      policy preparedRefs decode prepared binding sideEffecting
  | resolve seen seenAt lease identity runId outcome effectKey requestId page =>
    (resolveRunEffects seen seenAt db now lease identity runId outcome effectKey requestId
      page).map fun r => (r.1, true)
  | record seen key state receipt policy prepared media =>
    recordEffect seen db now key state receipt policy prepared media

/-- One call's writer: the operation, when it ran, and what it returned or raised. -/
structure EffectCall where
  op : EffectOp
  now : Time
  result : Except Err Bool

/-- A step is one writer, committed or rolled back, or any other change that leaves
the effects alone. -/
inductive EffectStep : Db → Option EffectCall → Db → Prop
  | commit {db db' : Db} {op : EffectOp} {now : Time} {b : Bool} :
    op.exec db now = .ok (db', b) → EffectStep db (some ⟨op, now, .ok b⟩) db'
  | rollback {db : Db} {op : EffectOp} {now : Time} {e : Err} :
    op.exec db now = .error e → EffectStep db (some ⟨op, now, .error e⟩) db
  | other {db db' : Db} : db'.effects = db.effects → EffectStep db none db'

/-- An `admit_dispatch` of `key` that returned true. -/
def admits (key : String) : Option EffectCall → Bool
  | some ⟨.admission _ _ _ k _, _, .ok true⟩ => k == key
  | _ => false

/-- The Work a call charges: that of a charging admission which returned true. -/
def EffectCall.charged : EffectCall → Option String
  | ⟨.admission _ _ identity _ true, _, .ok true⟩ => some identity
  | _ => none

/-- The tools counted against a root: its budget row's, or the root's own before it has one. -/
def Db.rootTools (db : Db) (root : String) : Int :=
  match db.budgets.get? root with
  | some b => b.tools
  | none => ((db.works.get? root).map WorkRow.toolCalls).getD 0

/-- Exactly one tool on the root budget above `identity` and one on its own counter. -/
structure ChargedOne (db db' : Db) (identity : String) : Prop where
  root : ∃ root, db.budgetRootId identity = .ok root ∧
    db'.rootTools root = db.rootTools root + 1 ∧
    ∀ r, r ≠ root → db'.budgets.get? r = db.budgets.get? r
  present : (db.works.get? identity).isSome
  work : ∀ id, (db'.works.get? id).map WorkRow.toolCalls =
    (db.works.get? id).map fun w => if id = identity then w.toolCalls + 1 else w.toolCalls

/-- One tool charged: the root's row is opened if need be and counts one more. -/
theorem charge_one_tool {db db' : Db} {identity : String} (h : charge db identity 0 1 = .ok db') :
    db'.works = db.works ∧ ∃ root, db.budgetRootId identity = .ok root ∧
      db'.rootTools root = db.rootTools root + 1 ∧
      ∀ r, r ≠ root → db'.budgets.get? r = db.budgets.get? r := by
  obtain ⟨-, -, ⟨-, ht, -⟩ | ⟨root, b, hroot, hb, -, rfl⟩⟩ := charge_cases h
  · simp at ht
  refine ⟨rfl, root, hroot, ?_, fun r hr => ?_⟩
  · have hopen := get?_openBudget db root root
    rw [hb] at hopen
    have hk := Table.get?_key hb
    simp only [Db.rootTools, Table.get?_update, hb, Option.map_some, hk, decide_true, if_true]
    cases hbud : db.budgets.get? root with
    | some b' =>
      rw [hbud] at hopen
      simp_all
    | none =>
      rw [hbud] at hopen
      cases hw : db.works.get? root <;> simp_all
  · rw [Table.get?_update, get?_openBudget]
    cases hbud : db.budgets.get? r with
    | none => simp [hr.symm]
    | some b' =>
      have hk := Table.get?_key hbud
      simp [hk, hr]

theorem chargeDispatch_charged {db db' : Db} {now : Time} {lease : WorkLease} {identity : String}
    (h : chargeDispatch db now lease identity = .ok db') : ChargedOne db db' identity := by
  obtain ⟨charged, w, hc, hw, rfl⟩ := chargeDispatch_cases h
  obtain ⟨hworks, root, hroot, htools, hother⟩ := charge_one_tool hc
  have hbud : ∀ r, Db.rootTools { charged with
      works := charged.works.update (fun w => w.id = identity) fun w =>
        { w with toolCalls := w.toolCalls + 1, updated := now } } r = charged.rootTools r ∨
      charged.budgets.get? r = none := by
    intro r
    cases hb : charged.budgets.get? r with
    | none => exact .inr rfl
    | some b => exact .inl (by simp [Db.rootTools, hb])
  refine ⟨⟨root, hroot, ?_, hother⟩, by rw [← hworks, hw]; rfl, fun id => ?_⟩
  · rcases hbud root with he | hn
    · rw [he, htools]
    · obtain ⟨-, -, ⟨-, ht, -⟩ | ⟨root', b, hroot', hb, -, rfl⟩⟩ := charge_cases hc
      · simp at ht
      · obtain rfl := Except.ok.inj (hroot.symm.trans hroot')
        simp [hb] at hn
  · rw [← hworks, Table.get?_update, Option.map_map]
    cases hid : charged.works.get? id with
    | none => rfl
    | some v =>
      have hk := Table.get?_key hid
      by_cases he : id = identity
      · simp [hk, he]
      · simp [hk, he]

theorem admitDispatch_charged {seen db db' : Db} {now : Time} {lease : WorkLease}
    {identity key : String} {charge b : Bool}
    (h : admitDispatch seen db now lease identity key charge = .ok (db', b)) :
    if b && charge then ChargedOne db db' identity else Uncharged db db' := by
  rcases admitDispatch_cases h with ⟨rfl, rfl⟩ | ⟨e, marked, rfl, -, -, -, -, -, -, h⟩
  · exact .refl db'
  · cases charge with
    | true =>
      obtain ⟨hroot, hp, hwork⟩ := chargeDispatch_charged h
      exact ⟨hroot, hp, hwork⟩
    | false =>
      obtain rfl := h
      exact .setEffect ..

/-- Every committed writer moves the effects forward. -/
theorem EffectOp.forward {op : EffectOp} {db db' : Db} {now : Time} {b : Bool}
    (h : op.exec db now = .ok (db', b)) : EffectsForward db db' := by
  cases op with
  | prepare => exact (prepareEffect_cases h).1
  | admission => exact admitDispatch_forward h
  | bind =>
    obtain ⟨r, hr, he⟩ := map_eq_ok.mp h
    obtain ⟨rfl, -⟩ := Prod.mk.inj he
    exact (bindDomainReceipt_forward hr).1
  | publish => exact (publishCodeBoundary_forward h).1
  | resolve =>
    obtain ⟨r, hr, he⟩ := map_eq_ok.mp h
    obtain ⟨rfl, -⟩ := Prod.mk.inj he
    exact (resolveRunEffects_forward hr).1
  | record => exact (recordEffect_forward h).1

theorem EffectStep.forward {db db' : Db} {c : Option EffectCall} (h : EffectStep db c db') :
    EffectsForward db db' := by
  cases h with
  | commit h => exact EffectOp.forward h
  | rollback => exact .refl db
  | other h => exact .of_eq h

theorem EffectOp.uncharged {op : EffectOp} {db db' : Db} {now : Time} {b : Bool}
    (h : op.exec db now = .ok (db', b)) (hc : EffectCall.charged ⟨op, now, .ok b⟩ = none) :
    Uncharged db db' := by
  cases op with
  | prepare => exact (prepareEffect_cases h).2
  | admission seen lease identity key charge =>
    have hh := admitDispatch_charged h
    cases b <;> cases charge <;> simp_all [EffectCall.charged]
  | bind =>
    obtain ⟨r, hr, he⟩ := map_eq_ok.mp h
    obtain ⟨rfl, -⟩ := Prod.mk.inj he
    exact (bindDomainReceipt_forward hr).2
  | publish => exact (publishCodeBoundary_forward h).2
  | resolve =>
    obtain ⟨r, hr, he⟩ := map_eq_ok.mp h
    obtain ⟨rfl, -⟩ := Prod.mk.inj he
    exact (resolveRunEffects_forward hr).2
  | record => exact (recordEffect_forward h).2

theorem EffectOp.chargedOne {op : EffectOp} {db db' : Db} {now : Time} {b : Bool} {identity : String}
    (h : op.exec db now = .ok (db', b))
    (hc : EffectCall.charged ⟨op, now, .ok b⟩ = some identity) : ChargedOne db db' identity := by
  cases op with
  | admission seen lease id key charge =>
    have hh := admitDispatch_charged h
    cases b <;> cases charge <;> simp_all [EffectCall.charged]
  | _ => simp [EffectCall.charged] at hc

theorem EffectStep.charged {db db' : Db} {c : EffectCall} (h : EffectStep db (some c) db') :
    (∀ identity, c.charged = some identity → ChargedOne db db' identity) ∧
      (c.charged = none → Uncharged db db') := by
  cases h with
  | commit h => exact ⟨fun _ hc => EffectOp.chargedOne h hc, EffectOp.uncharged h⟩
  | @rollback _ op now e =>
    refine ⟨fun identity hc => ?_, fun _ => .refl db⟩
    cases op with
    | _ => simp [EffectCall.charged] at hc

/-- The dispatch marker under a key. -/
def Dispatched (key : String) (db : Db) : Prop :=
  ∃ e, db.effects.get? key = some e ∧ e.dispatched = true

theorem EffectsForward.dispatched {db db' : Db} (h : EffectsForward db db') {key : String}
    (hd : Dispatched key db) : Dispatched key db' := by
  obtain ⟨e, he, hd⟩ := hd
  obtain ⟨e', he', hf⟩ := h key e he
  exact ⟨e', he', hf.dispatched hd⟩

/-- An admission that returns true finds the marker unset and leaves it set. -/
theorem admitDispatch_dispatched {seen db db' : Db} {now : Time} {lease : WorkLease}
    {identity key : String} {charge : Bool}
    (h : admitDispatch seen db now lease identity key charge = .ok (db', true)) :
    ¬ Dispatched key db ∧ Dispatched key db' := by
  rcases admitDispatch_cases h with ⟨hb, -⟩ | ⟨e, marked, -, hget, -, -, hclosed, hv, hm, h⟩
  · simp at hb
  refine ⟨fun ⟨f, hf, hd⟩ => ?_, ?_⟩
  · obtain rfl := Option.some.inj (hget.symm.trans hf)
    simp [hclosed] at hd
  have hset : Dispatched key (db.setEffect key .prepared (encodeJson marked) now) := by
    refine ⟨_, ?_, dispatched_of_admit hv hm .prepared now⟩
    rw [get?_setEffect, hget, Option.map_some, if_pos (Table.get?_key hget)]
  cases charge with
  | true =>
    obtain ⟨charged, w, hc, -, rfl⟩ := chargeDispatch_cases h
    have he := charge_effects hc
    exact (EffectsForward.of_eq he).dispatched hset
  | false =>
    obtain rfl := h
    exact hset

theorem EffectStep.admits {db db' : Db} {c : Option EffectCall} {key : String}
    (h : EffectStep db c db') (ha : admits key c = true) :
    ¬ Dispatched key db ∧ Dispatched key db' := by
  cases h with
  | other => simp [Yuki.admits] at ha
  | @rollback _ op now e =>
    cases op with
    | _ => simp [Yuki.admits] at ha
  | @commit _ op now b h =>
    cases op with
    | admission seen lease identity k charge =>
      cases b with
      | false => simp [Yuki.admits] at ha
      | true =>
        obtain rfl : k = key := by simpa [Yuki.admits] using ha
        exact admitDispatch_dispatched h
    | _ => simp [Yuki.admits] at ha

/-- At-most-once dispatch with exact charging: over any interleaving of the effect
writers at most one admission of a key returns true, its marker lasts, and a call
adds one tool to the root budget and to its Work exactly when it is a charging
admission that returns true. -/
theorem dispatch_at_most_once {db db' : Db} {calls : List (Option EffectCall)}
    (hr : Run EffectStep db calls db') (key : String) :
    calls.countP (admits key) ≤ 1 ∧
    (Dispatched key db → Dispatched key db') ∧
    ∀ s c t, EffectStep s (some c) t →
      (∀ identity, c.charged = some identity → ChargedOne s t identity) ∧
        (c.charged = none → Uncharged s t) :=
  ⟨hr.once (fun _ _ _ h hd => h.forward.dispatched hd)
      fun _ _ _ h ha => h.admits ha,
    fun hd => hr.invariant (fun _ _ _ hd h => h.forward.dispatched hd) hd,
    fun _ _ _ h => h.charged⟩

/-- What a writer that commits leaves behind. -/
def committed {α : Type} (db : Db) : Except Err (Db × α) → Db
  | .ok r => r.1
  | .error _ => db

theorem EffectStep.of_result {db : Db} {op : EffectOp} {now : Time} {b : Bool}
    (h : (op.exec db now).toOption.map Prod.snd = some b) :
    EffectStep db (some ⟨op, now, .ok b⟩) (committed db (op.exec db now)) := by
  cases he : op.exec db now with
  | error e => simp [he, Except.toOption] at h
  | ok r =>
    simp only [he, Except.toOption, Option.map_some, Option.some.injEq] at h
    exact .commit (by rw [he, ← h]; rfl)

/-- Two admissions of one intent: the first dispatches, the second does not. -/
theorem dispatch_at_most_once_twice :
    let lease : WorkLease := ⟨"c", 1, 0, 1, "o", none⟩
    let work : WorkRow :=
      { id := "w", parentWorkId := none, conversationId := "c", generation := 1, sourceKey := "s"
        sourceJson := .obj [], goal := "g", state := .running, created := 0, updated := 0 }
    let db : Db :=
      { works := .insert .empty work, scopes := .insert .empty ⟨"c", 1, 0, 1, some "o", 60⟩ }
    let prepare : EffectOp := .prepare lease "w" "k" "tool" none
      (some (.obj [("dispatch_started", .bool false), ("revision", .int 0), ("version", .int 1)])) none
    let db₁ := committed db (prepare.exec db 1)
    let admission : EffectOp := .admission db₁ lease "w" "k" true
    let db₂ := committed db₁ (admission.exec db₁ 2)
    let again : EffectOp := .admission db₂ lease "w" "k" true
    let db₃ := committed db₂ (again.exec db₂ 3)
    let calls := [some ⟨prepare, 1, .ok true⟩, some ⟨admission, 2, .ok true⟩,
      some ⟨again, 3, .ok false⟩]
    Run EffectStep db calls db₃ ∧ calls.countP (admits "k") ≤ 1 ∧ db₃.rootTools "w" = 1 := by
  intro lease work db prepare db₁ admission db₂ again db₃ calls
  have hr : Run EffectStep db calls db₃ :=
    .cons (.of_result (by decide +kernel)) (.cons (.of_result (by decide +kernel))
      (.single (.of_result (by decide +kernel))))
  exact ⟨hr, (dispatch_at_most_once hr "k").1, by decide +kernel⟩

end Yuki

import Yuki.Effects.Record
import Yuki.Lib.Transition

/-! What the receipt writers may change: states and host metadata only move forward. -/

namespace Yuki

open Json

/-- The members of an invocation its owner may still write. -/
def openFields : List String :=
  ["revision", "dispatch_started", "budget_admitted", "original_domain_ref"]

/-- An invocation keeps its closed members, its dispatch marker and a bound reference. -/
structure InvocationForward (v w : Json) : Prop where
  closed : ∀ f, f ∉ openFields → w.SameField v f
  started : (v.get "dispatch_started").truthy = true → (w.get "dispatch_started").truthy = true
  bound : ∀ s, v.get? "original_domain_ref" = some (.str s) →
    w.get? "original_domain_ref" = some (.str s)
  object : v.isObj = true → w.isObj = true

/-- Host metadata present in a receipt is never dropped, and an invocation moves forward. -/
structure ReceiptForward (a b : Json) : Prop where
  invocation : ∀ v, a.get? "invocation" = some v →
    ∃ w, b.get? "invocation" = some w ∧ InvocationForward v w
  composition : a.has "composition" = true → b.has "composition" = true

/-- `prepared` and `unknown` may settle; `accepted` and `failed` are final. -/
def EffectState.Forward (s t : EffectState) : Prop :=
  s = t ∨ (s = .prepared ∨ s = .unknown) ∧ t ≠ .prepared

structure EffectRow.Forward (e e' : EffectRow) : Prop where
  key : e'.effectKey = e.effectKey
  work : e'.workId = e.workId
  kind : e'.kind = e.kind
  state : e.state.Forward e'.state
  receipt : ReceiptForward e.receiptJson.value e'.receiptJson.value

/-- No effect row is lost and every one moves forward. -/
def EffectsForward (db db' : Db) : Prop :=
  ∀ key e, db.effects.get? key = some e → ∃ e', db'.effects.get? key = some e' ∧ e.Forward e'

theorem InvocationForward.refl (v : Json) : InvocationForward v v :=
  ⟨fun _ _ => rfl, id, fun _ h => h, id⟩

theorem InvocationForward.trans {u v w : Json} (h : InvocationForward u v)
    (h' : InvocationForward v w) : InvocationForward u w where
  closed f hf := (h'.closed f hf).trans (h.closed f hf)
  started hs := h'.started (h.started hs)
  bound s hs := h'.bound s (h.bound s hs)
  object ho := h'.object (h.object ho)

theorem InvocationForward.sortKeys {v w : Json} (h : InvocationForward v w) :
    InvocationForward v w.sortKeys where
  closed f hf := by
    rw [SameField, get?_sortKeys, Option.map_map, ← show w.SameField v f from h.closed f hf]
    cases w.get? f <;> simp
  started hs := by simpa using h.started hs
  bound s hs := by
    rw [get?_sortKeys, h.bound s hs]
    rfl
  object ho := by simpa using h.object ho

theorem ReceiptForward.refl (a : Json) : ReceiptForward a a :=
  ⟨fun v h => ⟨v, h, .refl v⟩, id⟩

theorem ReceiptForward.trans {a b c : Json} (h : ReceiptForward a b) (h' : ReceiptForward b c) :
    ReceiptForward a c where
  invocation v hv := by
    obtain ⟨w, hw, hvw⟩ := h.invocation v hv
    obtain ⟨x, hx, hwx⟩ := h'.invocation w hw
    exact ⟨x, hx, hvw.trans hwx⟩
  composition hc := h'.composition (h.composition hc)

theorem ReceiptForward.encode {a b : Json} (h : ReceiptForward a b) :
    ReceiptForward a (encodeJson b).value where
  invocation v hv := by
    obtain ⟨w, hw, hvw⟩ := h.invocation v hv
    exact ⟨w.sortKeys, by simp [encodeJson, hw], hvw.sortKeys⟩
  composition hc := by simpa [encodeJson] using h.composition hc

theorem ReceiptForward.set_other (a : Json) {k : String} (v : Json) (hk : k ≠ "invocation") :
    ReceiptForward a (a.set k v) where
  invocation w hw := ⟨w, by simp [hk.symm, hw], .refl w⟩
  composition hc := by
    rw [has_eq, get?_set]
    split
    · rfl
    · simpa [has_eq] using hc

theorem ReceiptForward.set_invocation {a v w : Json} (hv : a.get? "invocation" = some v)
    (h : InvocationForward v w) : ReceiptForward a (a.set "invocation" w) where
  invocation u hu := by
    obtain rfl := Option.some.inj (hv.symm.trans hu)
    exact ⟨w, by simp, h⟩
  composition hc := by
    rw [has_eq, get?_set]
    split
    · rfl
    · simpa [has_eq] using hc

/-- Writing an open member, the marker only upwards and the reference only once. -/
theorem InvocationForward.set {v w : Json} {k : String} {x : Json} (h : InvocationForward v w)
    (hk : k ∈ openFields) (hs : k = "dispatch_started" → x.truthy = true)
    (hb : k = "original_domain_ref" → ∀ s, v.get? k = some (.str s) → x = .str s) :
    InvocationForward v (w.set k x) where
  closed f hf := by
    have hne : f ≠ k := fun e => hf (e ▸ hk)
    rw [SameField, get?_set, if_neg hne]
    exact h.closed f hf
  started hv := by
    rw [get_eq, get?_set]
    split
    · rename_i he
      exact hs he.symm
    · simpa [get_eq] using h.started hv
  bound s hv := by
    rw [get?_set]
    split
    · rename_i he
      subst he
      rw [hb rfl s hv]
    · exact h.bound s hv
  object _ := rfl

theorem EffectState.Forward.refl (s : EffectState) : s.Forward s := .inl rfl

theorem EffectState.Forward.trans {s t u : EffectState} (h : s.Forward t) (h' : t.Forward u) :
    s.Forward u := by
  rcases h with rfl | ⟨hs, ht⟩
  · exact h'
  · rcases h' with rfl | ⟨-, hu⟩
    · exact .inr ⟨hs, ht⟩
    · exact .inr ⟨hs, hu⟩

theorem EffectRow.Forward.refl (e : EffectRow) : e.Forward e :=
  ⟨rfl, rfl, rfl, .refl _, .refl _⟩

theorem EffectRow.Forward.trans {e f g : EffectRow} (h : e.Forward f) (h' : f.Forward g) :
    e.Forward g :=
  ⟨h'.key.trans h.key, h'.work.trans h.work, h'.kind.trans h.kind, h.state.trans h'.state,
    h.receipt.trans h'.receipt⟩

theorem EffectsForward.refl (db : Db) : EffectsForward db db :=
  fun _ e h => ⟨e, h, .refl e⟩

theorem EffectsForward.trans {db db' db'' : Db} (h : EffectsForward db db')
    (h' : EffectsForward db' db'') : EffectsForward db db'' := by
  intro key e he
  obtain ⟨f, hf, hef⟩ := h key e he
  obtain ⟨g, hg, hfg⟩ := h' key f hf
  exact ⟨g, hg, hef.trans hfg⟩

theorem EffectsForward.of_eq {db db' : Db} (h : db'.effects = db.effects) :
    EffectsForward db db' :=
  fun key e he => ⟨e, by rw [h, he], .refl e⟩

theorem get?_setEffect (db : Db) (key : String) (state : EffectState) (receipt : JsonText)
    (now : Time) (k : String) :
    (db.setEffect key state receipt now).effects.get? k =
      (db.effects.get? k).map fun e => if e.effectKey = key then
        { e with state := state, receiptJson := receipt, updated := now } else e := by
  simp [Db.setEffect]

theorem EffectsForward.setEffect {db : Db} {key : String} {e : EffectRow} {state : EffectState}
    {receipt : JsonText} (now : Time) (he : db.effects.get? key = some e)
    (hs : e.state.Forward state) (hr : ReceiptForward e.receiptJson.value receipt.value) :
    EffectsForward db (db.setEffect key state receipt now) := by
  intro k f hf
  rw [get?_setEffect, hf]
  refine ⟨_, rfl, ?_⟩
  dsimp only
  split
  · rename_i hk
    obtain rfl : f = e := Option.some.inj (by rw [← hf, ← Table.get?_key hf, hk, he])
    exact ⟨rfl, rfl, rfl, hs, hr⟩
  · exact .refl f

theorem EffectsForward.insert {db db' : Db} {row : EffectRow}
    (h : db'.effects = db.effects.insert row) : EffectsForward db db' :=
  fun key e he => ⟨e, by rw [h, Table.get?_insert_of_some he], .refl e⟩

theorem effectOf_eq_some {db : Db} {key identity : String} {e : EffectRow} :
    db.effectOf key identity = some e ↔ db.effects.get? key = some e ∧ e.workId = identity := by
  simp [Db.effectOf, Option.filter_eq_some_iff]

/-- The marker of a dispatched version-1 invocation lasts. -/
theorem EffectRow.Forward.dispatched {e e' : EffectRow} (h : e.Forward e')
    (hd : e.dispatched = true) : e'.dispatched = true := by
  simp only [EffectRow.dispatched, versionOne, invocationOf, Bool.and_eq_true] at hd ⊢
  obtain ⟨⟨hobj, hv⟩, hs⟩ := hd
  cases hi : e.receiptJson.value.get? "invocation" with
  | none => simp [get_eq, hi, isObj] at hobj
  | some v =>
    obtain ⟨w, hw, hvw⟩ := h.receipt.invocation v hi
    have hgv : e.receiptJson.value.get "invocation" = v := by simp [get_eq, hi]
    have hgw : e'.receiptJson.value.get "invocation" = w := by simp [get_eq, hw]
    rw [hgv] at hobj hv hs
    rw [hgw]
    have hf := hvw.closed "version" (by decide)
    refine ⟨⟨hvw.object hobj, ?_⟩, hvw.started hs⟩
    have hsame : (w.get "version").sortKeys = (v.get "version").sortKeys := by
      have hh := congrArg (Option.getD · Json.null) hf
      rw [get_eq, get_eq]
      cases hwv : w.get? "version" <;> cases hvv : v.get? "version" <;>
        simp_all [SameField, Json.sortKeys, Json.normalize]
    rw [isOne, ← pyEq_sortKeys_left, hsame, pyEq_sortKeys_left]
    exact hv

end Yuki

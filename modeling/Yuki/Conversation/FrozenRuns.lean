import Mathlib.Logic.Relation
import Yuki.Conversation.FrozenSplit
import Yuki.Lib.Transition

/-! Runs of calls over shared candidates: every value keeps its index exact, and
the new chunks of a value over an ancestor are those of its own chain. -/

namespace Yuki.Frozen

/-! Items of stored blocks. -/

/-- An item that passes every check before the one of its message's role. -/
structure Envelope (item : Dict String Json) (ids : List Int) (message : Dict String Json) : Prop where
  names : hasKeys item ["kind", "event_ids", "message"] = true
  kind : field item "kind" = .str "model_input"
  eventIds : field item "event_ids" = .arr (ids.map .int)
  body : field item "message" = .obj message
  messageNames : hasKeys message ["role", "content"] = true
  positive : ∀ id ∈ ids, 0 < id
  nodup : ids.Nodup

def KnownRole (role : Json) : Prop :=
  ∃ r ∈ roles, role = .str r

def TextOrNone (content : Json) : Prop :=
  content = .null ∨ ∃ c, content = .str c

def WellFormed (item : Dict String Json) : Prop :=
  ∃ ids message, Envelope item ids message ∧ KnownRole (field message "role") ∧
    TextOrNone (field message "content")

def Unhashable : Json → Prop
  | .arr _ | .obj _ => True
  | _ => False

/-- An item whose first fault is a role that has no hash. -/
def UnhashableRole (item : Dict String Json) : Prop :=
  ∃ ids message, Envelope item ids message ∧ Unhashable (field message "role")

def itemIds (item : Dict String Json) : List Int :=
  match field item "event_ids" with
  | .arr ids => (intKeys ids).getD []
  | _ => []

theorem frozenMessage_cases (role content : Json) :
    (KnownRole role ∧ TextOrNone content ∧ ∃ m, frozenMessage role content = .ok m) ∨
    (Unhashable role ∧ frozenMessage role content = .error .typeError) ∨
    (¬ (KnownRole role ∧ TextOrNone content) ∧ ¬ Unhashable role ∧
      ∃ e, frozenMessage role content = .error e ∧ e.Conflict) := by
  cases role with
  | arr items => exact Or.inr (Or.inl ⟨trivial, rfl⟩)
  | obj fields => exact Or.inr (Or.inl ⟨trivial, rfl⟩)
  | str r =>
    by_cases hr : r ∈ roles
    · have hknown : KnownRole (.str r) := ⟨r, hr, rfl⟩
      cases content with
      | null => exact Or.inl ⟨hknown, Or.inl rfl, _, by rw [frozenMessage, dif_pos hr]⟩
      | str c => exact Or.inl ⟨hknown, Or.inr ⟨c, rfl⟩, _, by rw [frozenMessage, dif_pos hr]⟩
      | _ =>
        refine Or.inr (Or.inr ⟨?_, id, representation, by rw [frozenMessage, dif_pos hr], trivial⟩)
        rintro ⟨-, h | ⟨c, h⟩⟩ <;> cases h
    · refine Or.inr (Or.inr ⟨?_, id, representation, by rw [frozenMessage, dif_neg hr], trivial⟩)
      rintro ⟨⟨r', hr', he⟩, -⟩
      cases he
      exact hr hr'
  | _ =>
    refine Or.inr (Or.inr ⟨?_, id, representation, rfl, trivial⟩)
    rintro ⟨⟨r', hr', he⟩, -⟩
    cases he

variable {item : Dict String Json}

theorem loadItem_of_envelope {ids : List Int} {message : Dict String Json}
    (h : Envelope item ids message) :
    loadItem item = do
      let m ← frozenMessage (field message "role") (field message "content")
      return ⟨ids, m.1, h.positive, h.nodup, m.2.1, m.2.2⟩ := by
  unfold loadItem
  rw [if_pos h.names, if_pos h.kind, h.eventIds, h.body]
  dsimp only
  rw [if_pos h.messageNames, freeze, intKeys_map]
  dsimp only
  rw [dif_pos h.positive, dif_pos h.nodup]

theorem loadItem_of_no_envelope (h : ∀ ids message, ¬ Envelope item ids message) :
    ∃ e, loadItem item = .error e ∧ e.Conflict := by
  unfold loadItem
  by_cases hnames : hasKeys item ["kind", "event_ids", "message"] = true
  case neg =>
    rw [if_neg hnames]
    exact ⟨_, rfl, trivial⟩
  rw [if_pos hnames]
  by_cases hkind : field item "kind" = .str "model_input"
  case neg =>
    rw [if_neg hkind]
    exact ⟨_, rfl, trivial⟩
  rw [if_pos hkind]
  cases hids : field item "event_ids" with
  | arr values =>
    cases hmessage : field item "message" with
    | obj message =>
      dsimp only
      by_cases hm : hasKeys message ["role", "content"] = true
      case neg =>
        rw [if_neg hm]
        exact ⟨_, rfl, trivial⟩
      rw [if_pos hm, freeze]
      cases hkeys : intKeys values with
      | none => exact ⟨_, rfl, trivial⟩
      | some ids =>
        dsimp only
        have hvalues := eq_map_of_intKeys hkeys
        by_cases hpos : ∀ id ∈ ids, 0 < id
        · rw [dif_pos hpos]
          by_cases hnd : ids.Nodup
          · exact absurd ⟨hnames, hkind, hvalues ▸ hids, hmessage, hm, hpos, hnd⟩ (h ids message)
          · rw [dif_neg hnd]
            exact ⟨_, rfl, trivial⟩
        · rw [dif_neg hpos]
          exact ⟨_, rfl, trivial⟩
    | _ => exact ⟨_, rfl, trivial⟩
  | _ => exact ⟨_, rfl, trivial⟩

theorem Envelope.unique {ids ids' : List Int} {message message' : Dict String Json}
    (h : Envelope item ids message) (h' : Envelope item ids' message') :
    ids = ids' ∧ message = message' := by
  have hids : intKeys (ids.map .int) = intKeys (ids'.map .int) := by
    rw [Json.arr.inj (h.eventIds.symm.trans h'.eventIds)]
  rw [intKeys_map, intKeys_map] at hids
  exact ⟨Option.some.inj hids, Json.obj.inj (h.body.symm.trans h'.body)⟩

theorem WellFormed.not_unhashableRole (h : WellFormed item) : ¬ UnhashableRole item := by
  rintro ⟨ids, message, henv, hrole⟩
  obtain ⟨ids', message', henv', ⟨r, -, hr⟩, -⟩ := h
  obtain ⟨-, rfl⟩ := henv.unique henv'
  rw [hr] at hrole
  exact hrole

/-- An item is accepted, fails on its role's hash, or is rejected as it should be. -/
theorem loadItem_cases (item : Dict String Json) :
    (WellFormed item ∧ ∃ f, loadItem item = .ok f ∧ f.eventIds = itemIds item) ∨
    (UnhashableRole item ∧ ¬ WellFormed item ∧ loadItem item = .error .typeError) ∨
    (¬ WellFormed item ∧ ¬ UnhashableRole item ∧ ∃ e, loadItem item = .error e ∧ e.Conflict) := by
  by_cases henv : ∃ ids message, Envelope item ids message
  · obtain ⟨ids, message, henv⟩ := henv
    rw [loadItem_of_envelope henv]
    rcases frozenMessage_cases (field message "role") (field message "content") with
      ⟨hrole, hcontent, m, hm⟩ | ⟨hrole, hm⟩ | ⟨hbad, hrole, e, hm, he⟩
    · rw [hm]
      refine Or.inl ⟨⟨ids, message, henv, hrole, hcontent⟩, _, rfl, ?_⟩
      rw [itemIds, henv.eventIds]
      dsimp only
      rw [intKeys_map, Option.getD_some]
    · rw [hm]
      have hun : UnhashableRole item := ⟨ids, message, henv, hrole⟩
      exact Or.inr (Or.inl ⟨hun, fun h => h.not_unhashableRole hun, rfl⟩)
    · rw [hm]
      refine Or.inr (Or.inr ⟨?_, ?_, e, rfl, he⟩)
      · rintro ⟨ids', message', henv', hgood⟩
        obtain ⟨-, rfl⟩ := henv.unique henv'
        exact hbad hgood
      · rintro ⟨ids', message', henv', hun⟩
        obtain ⟨-, rfl⟩ := henv.unique henv'
        exact hrole hun
  · have hnone : ∀ ids message, ¬ Envelope item ids message := fun ids message h =>
      henv ⟨ids, message, h⟩
    refine Or.inr (Or.inr ⟨?_, ?_, loadItem_of_no_envelope hnone⟩)
    · rintro ⟨ids, message, h, -⟩
      exact hnone ids message h
    · rintro ⟨ids, message, h, -⟩
      exact hnone ids message h

/-- The first item that is rejected has a role without a hash. -/
def UnhashableFirst (items : List (Dict String Json)) : Prop :=
  ∃ before item after, items = before ++ item :: after ∧ (∀ i ∈ before, WellFormed i) ∧
    UnhashableRole item

theorem unhashableFirst_cons {items : List (Dict String Json)} (h : WellFormed item) :
    UnhashableFirst (item :: items) ↔ UnhashableFirst items := by
  constructor
  · rintro ⟨before, bad, after, heq, hgood, hbad⟩
    cases before with
    | nil =>
      cases heq
      exact absurd hbad h.not_unhashableRole
    | cons first before =>
      cases heq
      exact ⟨before, bad, after, rfl, fun i hi => hgood i (List.mem_cons_of_mem _ hi), hbad⟩
  · rintro ⟨before, bad, after, rfl, hgood, hbad⟩
    refine ⟨item :: before, bad, after, rfl, fun i hi => ?_, hbad⟩
    rcases List.mem_cons.mp hi with rfl | hi
    · exact h
    · exact hgood i hi

theorem mapM_loadItem_cases (items : List (Dict String Json)) :
    ((∀ item ∈ items, WellFormed item) ∧ ¬ UnhashableFirst items ∧
      ∃ fragments, items.mapM loadItem = .ok fragments ∧
        fragments.flatMap (·.eventIds) = items.flatMap itemIds) ∨
    ((∃ item ∈ items, ¬ WellFormed item) ∧ UnhashableFirst items ∧
      items.mapM loadItem = .error .typeError) ∨
    ((∃ item ∈ items, ¬ WellFormed item) ∧ ¬ UnhashableFirst items ∧
      ∃ e, items.mapM loadItem = .error e ∧ e.Conflict) := by
  induction items with
  | nil =>
    refine Or.inl ⟨by simp, ?_, [], rfl, rfl⟩
    rintro ⟨before, item, after, h, -⟩
    simp at h
  | cons item items ih =>
    rw [List.mapM_cons]
    rcases loadItem_cases item with ⟨hgood, f, hf, hids⟩ | ⟨hun, hbad, hf⟩ | ⟨hbad, hun, e, hf, he⟩
    · rw [unhashableFirst_cons hgood, hf, ok_bind]
      rcases ih with ⟨hall, hfirst, fs, hfs, hfids⟩ | ⟨⟨bad, hmem, hb⟩, hfirst, hfs⟩ |
        ⟨⟨bad, hmem, hb⟩, hfirst, e, hfs, he⟩
      · refine Or.inl ⟨?_, hfirst, f :: fs, by rw [hfs]; rfl, ?_⟩
        · intro i hi
          rcases List.mem_cons.mp hi with rfl | hi
          · exact hgood
          · exact hall i hi
        · rw [List.flatMap_cons, List.flatMap_cons, hids, hfids]
      · exact Or.inr (Or.inl ⟨⟨bad, List.mem_cons_of_mem _ hmem, hb⟩, hfirst, by rw [hfs]; rfl⟩)
      · exact Or.inr (Or.inr ⟨⟨bad, List.mem_cons_of_mem _ hmem, hb⟩, hfirst, e, by rw [hfs]; rfl, he⟩)
    · rw [hf]
      exact Or.inr (Or.inl ⟨⟨item, List.mem_cons_self, hbad⟩,
        ⟨[], item, items, rfl, by simp, hun⟩, rfl⟩)
    · rw [hf]
      refine Or.inr (Or.inr ⟨⟨item, List.mem_cons_self, hbad⟩, ?_, e, rfl, he⟩)
      rintro ⟨before, bad, after, heq, hgood, hb⟩
      cases before with
      | nil =>
        cases heq
        exact hun hb
      | cons first before =>
        cases heq
        exact hbad (hgood _ List.mem_cons_self)

/-! Calls, and the candidates they leave. -/

inductive Call
  | load (items : List (Dict String Json))
  | reload (frozen : FrozenFragments)
  | fromBlocks (blocks : List (List FrozenFragment))
  | extendBlocks (frozen : FrozenFragments) (blocks : List (List FrozenFragment))
  | extendHistory (order : FrozenFragments.SetOrder) (frozen : FrozenFragments)
      (grouped individual : List EventFragment)
  | appendCurrent (frozen : FrozenFragments) (eventId : Int) (message : Compaction.ChatMessage)

namespace Call

def receiver : Call → Option FrozenFragments
  | .load _ | .fromBlocks _ => none
  | .reload p | .extendBlocks p _ | .extendHistory _ p _ _ | .appendCurrent p _ _ => some p

/-- The call, with the next identity that an object can take. -/
def run (ident : Nat) : Call → Except Failure FrozenFragments
  | .load items => FrozenFragments.load items ident
  | .reload p => .ok p
  | .fromBlocks blocks => FrozenFragments.fromBlocks blocks ident
  | .extendBlocks p blocks => p.extendBlocks ident blocks
  | .extendHistory order p grouped individual => p.extendHistory order grouped individual ident
  | .appendCurrent p eventId message => p.appendCurrent eventId message ident

/-- How many identities the call may take. -/
def cost : Call → Nat
  | .fromBlocks blocks | .extendBlocks _ blocks => blocks.length + 1
  | _ => 1

def Raises (call : Call) (ident : Nat) : Prop :=
  ∃ e, call.run ident = .error e ∧ e.Conflict

/-- The call would bring in a repeated identifier, inexact coverage or a malformed fragment. -/
def Flawed : Call → Prop
  | .load items => (∃ item ∈ items, ¬ WellFormed item) ∨ ¬ (items.flatMap itemIds).Nodup
  | .reload _ => False
  | .fromBlocks blocks => ¬ (blocks.flatten.flatMap (·.eventIds)).Nodup
  | .extendBlocks p blocks => ¬ (p.eventIds ++ blocks.flatten.flatMap (·.eventIds)).Nodup
  | .extendHistory _ p grouped individual => ¬ (Covers individual p.eventIds grouped ∧
      ∀ f ∈ directSplit individual p.eventIds grouped, Publishable f)
  | .appendCurrent p eventId message => eventId ∈ p.eventIds ∨ ¬ Publishable ([eventId], message)

/-- The first item a load rejects has a role without a hash. -/
def HashFails : Call → Prop
  | .load items => UnhashableFirst items
  | _ => False

end Call

structure World where
  values : List FrozenFragments
  edges : List (FrozenFragments × FrozenFragments)
  next : Nat

namespace World

def start : World := ⟨[], [], 0⟩

def Holds (w : World) (call : Call) : Prop :=
  ∀ p, call.receiver = some p → p ∈ w.values

inductive Step (w : World) (call : Call) : World → Prop
  | returns {q : FrozenFragments} (held : w.Holds call) (run : call.run w.next = .ok q) :
      Step w call ⟨w.values ++ [q], w.edges ++ (call.receiver.map (·, q)).toList,
        w.next + call.cost⟩
  | raises {e : Failure} (held : w.Holds call) (run : call.run w.next = .error e) :
      Step w call { w with next := w.next + call.cost }

/-- One candidate was made from the other, by one call after another. -/
def Derived (w : World) : FrozenFragments → FrozenFragments → Prop :=
  Relation.ReflTransGen fun p q => (p, q) ∈ w.edges

end World

namespace FrozenFragments

variable {p q r : FrozenFragments} {low mid high : Nat}

/-- New chunks in front of the old ones, with identities of this range. -/
structure Grown (low high : Nat) (p q : FrozenFragments) : Prop where
  owner : q.owner = p.owner
  chunks : ∃ new, q.tail = new ++ p.tail ∧ (new.map (·.ident)).Pairwise (· > ·) ∧
    (∀ chunk ∈ new, low ≤ chunk.ident ∧ chunk.ident < high) ∧ (new = [] → q = p)

namespace Grown

theorem refl (low high : Nat) (p : FrozenFragments) : Grown low high p p :=
  ⟨rfl, [], rfl, List.Pairwise.nil, by simp, fun _ => rfl⟩

theorem trans (h : Grown low mid p q) (h' : Grown mid high q r) (hlow : low ≤ mid)
    (hhigh : mid ≤ high) : Grown low high p r := by
  obtain ⟨new, htail, hsorted, hrange, hsame⟩ := h.chunks
  obtain ⟨new', htail', hsorted', hrange', hsame'⟩ := h'.chunks
  refine ⟨h'.owner.trans h.owner, new' ++ new, ?_, ?_, ?_, ?_⟩
  · rw [htail', htail, List.append_assoc]
  · rw [List.map_append]
    refine List.pairwise_append.mpr ⟨hsorted', hsorted, fun a ha b hb => ?_⟩
    obtain ⟨c, hc, rfl⟩ := List.mem_map.mp ha
    obtain ⟨d, hd, rfl⟩ := List.mem_map.mp hb
    have := (hrange' c hc).1
    have := (hrange d hd).2
    omega
  · intro c hc
    rcases List.mem_append.mp hc with hc | hc
    · have := hrange' c hc
      omega
    · have := hrange c hc
      omega
  · intro hnil
    obtain ⟨hnil', hnil⟩ := List.append_eq_nil_iff.mp hnil
    rw [hsame' hnil', hsame hnil]

theorem mono {high' : Nat} (h : Grown low high p q) (hle : high ≤ high') : Grown low high' p q := by
  obtain ⟨new, htail, hsorted, hrange, hsame⟩ := h.chunks
  exact ⟨h.owner, new, htail, hsorted, fun c hc => ⟨(hrange c hc).1,
    lt_of_lt_of_le (hrange c hc).2 hle⟩, hsame⟩

theorem attach (p : FrozenFragments) (fragments : List FrozenFragment) (tree : AvlTree Int)
    (ident : Nat) : Grown ident (ident + 1) p (p.attach fragments tree ident) := by
  unfold FrozenFragments.attach
  split
  · exact refl _ _ p
  · exact ⟨rfl, [_], rfl, List.pairwise_singleton _ _, by simp, by simp⟩

end Grown

theorem append_grown {fragments : List FrozenFragment} {ident : Nat}
    (h : p.append fragments ident = .ok q) : Grown ident (ident + 1) p q := by
  unfold append at h
  split at h
  · cases h
    exact .refl _ _ _
  · obtain ⟨tree, -, h⟩ := bind_eq_ok.mp h
    cases h
    exact .attach p fragments tree ident

theorem extendBlocks_grown {blocks : List (List FrozenFragment)} {ident : Nat}
    (h : p.extendBlocks ident blocks = .ok q) : Grown ident (ident + blocks.length) p q := by
  induction blocks generalizing p ident with
  | nil =>
    cases h
    exact .refl _ _ _
  | cons block blocks ih =>
    obtain ⟨next, hnext, h⟩ := bind_eq_ok.mp h
    refine (append_grown hnext).trans (ih h |>.mono ?_) (Nat.le_succ _) ?_
    · rw [List.length_cons]
      omega
    · rw [List.length_cons]
      omega

theorem Exact.extendBlocks (h : p.Exact) (ident : Nat) (blocks : List (List FrozenFragment)) :
    ((p.eventIds ++ blocks.flatten.flatMap (·.eventIds)).Nodup →
      ∃ q, p.extendBlocks ident blocks = .ok q ∧ q.Exact) ∧
    (¬ (p.eventIds ++ blocks.flatten.flatMap (·.eventIds)).Nodup →
      ∃ e, p.extendBlocks ident blocks = .error e ∧ e.Conflict) := by
  induction blocks generalizing p ident with
  | nil =>
    refine ⟨fun _ => ⟨p, rfl, h⟩, fun hnd => absurd ?_ hnd⟩
    simpa using h.nodup
  | cons block blocks ih =>
    rw [List.flatten_cons, List.flatMap_append, ← List.append_assoc, FrozenFragments.extendBlocks]
    by_cases hblock : (p.eventIds ++ block.flatMap (·.eventIds)).Nodup
    · obtain ⟨tree, hrun, hexact⟩ := h.append_ok block ident hblock
      have hih := ih hexact (ident + 1)
      rw [eventIds_attach] at hih
      rw [hrun]
      exact hih
    · rw [h.append_error block ident hblock]
      exact ⟨fun hnd => absurd (List.Nodup.of_append_left hnd) hblock, fun _ => ⟨_, rfl, trivial⟩⟩

end FrozenFragments

namespace Call

open FrozenFragments

variable {call : Call} {ident : Nat} {q : FrozenFragments}

/-- The value a call starts from: its receiver, or a new empty one. -/
def origin (call : Call) (ident : Nat) : FrozenFragments :=
  call.receiver.getD (root ident)

theorem grown_of_run (h : call.run ident = .ok q) :
    Grown ident (ident + call.cost) (call.origin ident) q := by
  cases call with
  | load items =>
    obtain ⟨fragments, -, h⟩ := bind_eq_ok.mp h
    exact append_grown h
  | reload p =>
    cases h
    exact .refl _ _ _
  | fromBlocks blocks => exact (extendBlocks_grown h).mono (Nat.le_succ _)
  | extendBlocks p blocks => exact (extendBlocks_grown h).mono (Nat.le_succ _)
  | extendHistory order p grouped individual =>
    obtain ⟨state, -, h⟩ := bind_eq_ok.mp h
    cases h
    exact .attach p _ _ ident
  | appendCurrent p eventId message =>
    change FrozenFragments.appendCurrent p eventId message ident = .ok q at h
    unfold FrozenFragments.appendCurrent at h
    split at h
    · cases h
    · obtain ⟨fragment, -, h⟩ := bind_eq_ok.mp h
      exact append_grown h

theorem appendCurrent_spec {p : FrozenFragments} (h : p.Exact) (eventId : Int)
    (message : Compaction.ChatMessage) (ident : Nat) :
    (¬ Flawed (.appendCurrent p eventId message) →
      ∃ q, p.appendCurrent eventId message ident = .ok q ∧ q.Exact) ∧
    (Flawed (.appendCurrent p eventId message) →
      ∃ e, p.appendCurrent eventId message ident = .error e ∧ e.Conflict) := by
  change (¬ (_ ∨ _) → _) ∧ (_ ∨ _ → _)
  unfold FrozenFragments.appendCurrent
  by_cases hmem : eventId ∈ p.eventIds
  · rw [if_pos ((h.indexed.contains eventId).mpr hmem)]
    exact ⟨fun hno => absurd (Or.inl hmem) hno, fun _ => ⟨_, rfl, trivial⟩⟩
  · rw [if_neg fun hc => hmem ((h.indexed.contains eventId).mp hc)]
    by_cases hpub : Publishable ([eventId], message)
    · obtain ⟨fragment, hrun, hshape⟩ := freezeEvent_ok hpub
      have hids : fragment.eventIds = [eventId] := congrArg Prod.fst hshape
      rw [hrun, ok_bind]
      obtain ⟨tree, happ, hexact⟩ := h.append_ok [fragment] ident (by
        rw [List.flatMap_singleton, hids, List.nodup_append_comm]
        exact List.nodup_cons.mpr ⟨hmem, h.nodup⟩)
      exact ⟨fun _ => ⟨_, happ, hexact⟩, fun hbad => absurd hpub (hbad.resolve_left hmem)⟩
    · obtain ⟨e, he, hconflict⟩ := freezeEvent_error hpub
      rw [he]
      exact ⟨fun hno => absurd (Or.inr hpub) hno, fun _ => ⟨e, rfl, hconflict⟩⟩

/-- A call keeps the index exact, raises on a flaw, and does neither when a hash fails. -/
theorem run_cases (h : ∀ p, call.receiver = some p → p.Exact) (ident : Nat) :
    (¬ call.Flawed ∧ ¬ call.HashFails ∧ ∃ q, call.run ident = .ok q ∧ q.Exact) ∨
    (call.Flawed ∧ ¬ call.HashFails ∧ call.Raises ident) ∨
    (call.Flawed ∧ call.HashFails ∧ call.run ident = .error .typeError) := by
  cases call with
  | load items =>
    unfold Raises
    change (_ ∧ _ ∧ ∃ q, FrozenFragments.load items ident = _ ∧ _) ∨
      (_ ∧ _ ∧ ∃ e, FrozenFragments.load items ident = _ ∧ _) ∨
      (_ ∧ _ ∧ FrozenFragments.load items ident = _)
    unfold FrozenFragments.load
    rcases mapM_loadItem_cases items with ⟨hall, hfirst, fragments, hrun, hids⟩ |
      ⟨hbad, hfirst, hrun⟩ | ⟨hbad, hfirst, e, hrun, hconflict⟩
    · rw [hrun]
      by_cases hnd : (items.flatMap itemIds).Nodup
      · obtain ⟨tree, happ, hexact⟩ := (exact_root ident).append_ok fragments ident
          (by rwa [hids])
        refine Or.inl ⟨?_, hfirst, _, happ, hexact⟩
        rintro (⟨item, hitem, hbad⟩ | hdup)
        · exact hbad (hall item hitem)
        · exact hdup hnd
      · have happ := (exact_root ident).append_error fragments ident (by rwa [hids])
        exact Or.inr (Or.inl ⟨Or.inr hnd, hfirst, _, happ, trivial⟩)
    · rw [hrun]
      exact Or.inr (Or.inr ⟨Or.inl hbad, hfirst, rfl⟩)
    · rw [hrun]
      exact Or.inr (Or.inl ⟨Or.inl hbad, hfirst, e, rfl, hconflict⟩)
  | reload p => exact Or.inl ⟨id, id, p, rfl, h p rfl⟩
  | fromBlocks blocks =>
    obtain ⟨hok, herror⟩ := (exact_root ident).extendBlocks ident blocks
    by_cases hnd : (blocks.flatten.flatMap (·.eventIds)).Nodup
    · exact Or.inl ⟨fun hflaw => hflaw hnd, id, hok hnd⟩
    · exact Or.inr (Or.inl ⟨hnd, id, herror hnd⟩)
  | extendBlocks p blocks =>
    obtain ⟨hok, herror⟩ := (h p rfl).extendBlocks ident blocks
    by_cases hnd : (p.eventIds ++ blocks.flatten.flatMap (·.eventIds)).Nodup
    · exact Or.inl ⟨fun hflaw => hflaw hnd, id, hok hnd⟩
    · exact Or.inr (Or.inl ⟨hnd, id, herror hnd⟩)
  | extendHistory order p grouped individual =>
    obtain ⟨hok, herror⟩ := (h p rfl).extendHistory order grouped individual ident
    by_cases hgood : Covers individual p.eventIds grouped ∧
        ∀ f ∈ directSplit individual p.eventIds grouped, Publishable f
    · obtain ⟨additions, tree, hrun, hexact, -⟩ := hok hgood.1 hgood.2
      exact Or.inl ⟨fun hflaw => hflaw hgood, id, _, hrun, hexact⟩
    · exact Or.inr (Or.inl ⟨hgood, id, herror hgood⟩)
  | appendCurrent p eventId message =>
    obtain ⟨hok, herror⟩ := appendCurrent_spec (h p rfl) eventId message ident
    by_cases hflaw : Flawed (.appendCurrent p eventId message)
    · exact Or.inr (Or.inl ⟨hflaw, id, herror hflaw⟩)
    · exact Or.inl ⟨hflaw, id, hok hflaw⟩

end Call

namespace World

open FrozenFragments

variable {w w' : World} {call : Call} {calls : List Call} {p q : FrozenFragments}

/-- Values say the truth, chains are in order, edges extend, and a chunk that two
values share was handed from one to the other. -/
structure Sound (w : World) : Prop where
  exact : ∀ p ∈ w.values, p.Exact
  sorted : ∀ p ∈ w.values, (p.tail.map (·.ident)).Pairwise (· > ·)
  below : ∀ p ∈ w.values, p.owner < w.next ∧ ∀ i ∈ p.tail.map (·.ident), i < w.next
  edges : ∀ e ∈ w.edges, e.2.owner = e.1.owner ∧ e.1.tail <:+ e.2.tail
  linked : ∀ p ∈ w.values, ∀ q ∈ w.values, q.owner = p.owner →
    (∀ i, p.tailIdent = some i → i ∈ q.tail.map (·.ident)) → w.Derived p q

theorem sound_start : start.Sound :=
  ⟨by simp [start], by simp [start], by simp [start], by simp [start], by simp [start]⟩

theorem Sound.exact_receiver (h : w.Sound) (held : w.Holds call) :
    ∀ p, call.receiver = some p → p.Exact :=
  fun p hp => h.exact p (held p hp)

theorem Derived.mono (hedges : ∀ e ∈ w.edges, e ∈ w'.edges) (h : w.Derived p q) :
    w'.Derived p q :=
  Relation.ReflTransGen.mono (fun _ _ he => hedges _ he) p q h

theorem cost_pos (call : Call) : 0 < call.cost := by
  cases call <;> simp [Call.cost]

theorem origin_below (h : w.Sound) (held : w.Holds call) :
    (call.origin w.next).owner ≤ w.next ∧
      (∀ i ∈ (call.origin w.next).tail.map (·.ident), i < w.next) ∧
      ((call.origin w.next).tail.map (·.ident)).Pairwise (· > ·) := by
  unfold Call.origin
  cases hp : call.receiver with
  | none => exact ⟨Nat.le_refl _, by simp [root], by simp [root]⟩
  | some p =>
    have hmem := held p hp
    exact ⟨Nat.le_of_lt (h.below p hmem).1, (h.below p hmem).2, h.sorted p hmem⟩

/-- A value that shares its last chunk, or only the owner, with what a call starts from. -/
theorem Sound.derived_origin (h : w.Sound) (held : w.Holds call) (hp : p ∈ w.values)
    (howner : (call.origin w.next).owner = p.owner)
    (hident : ∀ i, p.tailIdent = some i → i ∈ (call.origin w.next).tail.map (·.ident)) :
    ∃ r, call.receiver = some r ∧ w.Derived p r := by
  unfold Call.origin at howner hident
  cases hr : call.receiver with
  | none =>
    rw [hr] at howner
    have := (h.below p hp).1
    simp only [Option.getD_none, root] at howner
    omega
  | some r =>
    rw [hr] at howner hident
    exact ⟨r, rfl, h.linked p hp r (held r hr) howner hident⟩

theorem Sound.returns (h : w.Sound) (held : w.Holds call) (hexact : q.Exact)
    (hgrown : Grown w.next (w.next + call.cost) (call.origin w.next) q) :
    Sound ⟨w.values ++ [q], w.edges ++ (call.receiver.map (·, q)).toList, w.next + call.cost⟩ := by
  obtain ⟨howner, new, htail, hsorted, hrange, hsame⟩ := hgrown
  obtain ⟨hownerLe, hidents, hsorted'⟩ := origin_below h held
  have hcost := cost_pos call
  have hmono : ∀ {a b}, w.Derived a b → Derived ⟨w.values ++ [q],
      w.edges ++ (call.receiver.map (·, q)).toList, w.next + call.cost⟩ a b := fun hd =>
    hd.mono fun e he => List.mem_append_left _ he
  have hnewIdent : ∀ i ∈ new.map (·.ident), w.next ≤ i ∧ i < w.next + call.cost := by
    intro i hi
    obtain ⟨c, hc, rfl⟩ := List.mem_map.mp hi
    exact hrange c hc
  constructor
  · intro p hp
    rcases List.mem_append.mp hp with hp | hp
    · exact h.exact p hp
    · exact List.mem_singleton.mp hp ▸ hexact
  · intro p hp
    rcases List.mem_append.mp hp with hp | hp
    · exact h.sorted p hp
    · rw [List.mem_singleton.mp hp, htail, List.map_append]
      refine List.pairwise_append.mpr ⟨hsorted, hsorted', fun a ha b hb => ?_⟩
      exact lt_of_lt_of_le (hidents b hb) (hnewIdent a ha).1
  · intro p hp
    rcases List.mem_append.mp hp with hp | hp
    · obtain ⟨hb, hb'⟩ := h.below p hp
      exact ⟨Nat.lt_add_right _ hb, fun i hi => Nat.lt_add_right _ (hb' i hi)⟩
    · rw [List.mem_singleton.mp hp, howner, htail, List.map_append]
      refine ⟨by dsimp only; omega, fun i hi => ?_⟩
      rcases List.mem_append.mp hi with hi | hi
      · exact (hnewIdent i hi).2
      · exact Nat.lt_add_right _ (hidents i hi)
  · intro e he
    rcases List.mem_append.mp he with he | he
    · exact h.edges e he
    · cases hr : call.receiver with
      | none => simp [hr] at he
      | some r =>
        rw [hr, Option.map_some, Option.toList_some, List.mem_singleton] at he
        rw [he]
        unfold Call.origin at howner htail
        rw [hr, Option.getD_some] at howner htail
        exact ⟨howner, new, htail.symm⟩
  · -- a shared last chunk is an old one, unless it is the new value's own
    intro a ha b hb hab hident
    rcases List.mem_append.mp ha with hold | hnew
    · rcases List.mem_append.mp hb with holdb | hnewb
      · exact hmono (h.linked a hold b holdb hab hident)
      · rw [List.mem_singleton] at hnewb
        subst hnewb
        obtain ⟨r, hr, hd⟩ := h.derived_origin held hold (howner.symm.trans hab) fun i hi => by
          have hmem := hident i hi
          rw [htail, List.map_append, List.mem_append] at hmem
          refine hmem.resolve_left fun hfresh => ?_
          have hlt : i < w.next := by
            refine (h.below a hold).2 i ?_
            obtain ⟨c, hc, rfl⟩ := Option.map_eq_some_iff.mp hi
            exact List.mem_map_of_mem (List.mem_of_head? hc)
          exact absurd hlt (Nat.not_lt.mpr (hnewIdent i hfresh).1)
        refine (hmono hd).tail (List.mem_append_right _ ?_)
        rw [hr, Option.map_some, Option.toList_some]
        exact List.mem_singleton_self _
    · rw [List.mem_singleton] at hnew
      subst hnew
      rcases List.mem_append.mp hb with holdb | hnewb
      · cases new with
        | nil =>
          have hq := hsame rfl
          unfold Call.origin at hq
          refine hmono ?_
          cases hr : call.receiver with
          | none =>
            rw [hr, Option.getD_none] at hq
            have hlt := (h.below b holdb).1
            rw [hab, hq] at hlt
            exact absurd hlt (Nat.lt_irrefl _)
          | some r =>
            rw [hr, Option.getD_some] at hq
            subst hq
            exact h.linked a (held a hr) b holdb hab hident
        | cons chunk new =>
          have hhead : a.tailIdent = some chunk.ident := by
            rw [tailIdent, htail]
            rfl
          have hlt := (h.below b holdb).2 _ (hident _ hhead)
          have hge := (hnewIdent chunk.ident (by simp)).1
          exact absurd hlt (Nat.not_lt.mpr hge)
      · rw [List.mem_singleton] at hnewb
        subst hnewb
        exact Relation.ReflTransGen.refl

theorem Sound.step (h : w.Sound) (hstep : Step w call w') : w'.Sound := by
  cases hstep with
  | returns held run =>
    refine h.returns held ?_ (Call.grown_of_run run)
    rcases Call.run_cases (h.exact_receiver held) w.next with ⟨-, -, q, hq, hexact⟩ |
      ⟨-, -, e, he, -⟩ | ⟨-, -, he⟩
    · cases run.symm.trans hq
      exact hexact
    · cases run.symm.trans he
    · cases run.symm.trans he
  | raises held run =>
    refine ⟨h.exact, h.sorted, fun p hp => ?_, h.edges, h.linked⟩
    obtain ⟨hb, hb'⟩ := h.below p hp
    exact ⟨Nat.lt_add_right _ hb, fun i hi => Nat.lt_add_right _ (hb' i hi)⟩

theorem sound_of_run (h : Run Step start calls w) : w.Sound :=
  h.invariant (fun _ _ _ hs hstep => hs.step hstep) sound_start

/-! The new chunks over an ancestor. -/

theorem Sound.suffix_of_derived (h : w.Sound) (hd : w.Derived p q) :
    q.owner = p.owner ∧ p.tail <:+ q.tail := by
  induction hd with
  | refl => exact ⟨rfl, List.suffix_refl _⟩
  | tail _ he ih =>
    obtain ⟨howner, hsuffix⟩ := h.edges _ he
    exact ⟨howner.trans ih.1, ih.2.trans hsuffix⟩

theorem blocksAbove_append {new old : List Chunk}
    (hsorted : ((new ++ old).map (·.ident)).Pairwise (· > ·)) :
    blocksAbove (old.head?.map (·.ident)) (new ++ old) = some (new.map (·.fragments)) := by
  induction new with
  | nil =>
    cases old with
    | nil => rfl
    | cons chunk old => exact if_pos rfl
  | cons chunk new ih =>
    rw [List.cons_append, List.map_cons, List.pairwise_cons] at hsorted
    have hne : old.head?.map (·.ident) ≠ some chunk.ident := by
      intro heq
      obtain ⟨c, hc, hident⟩ := Option.map_eq_some_iff.mp heq
      have hmem : c ∈ new ++ old := List.mem_append_right _ (List.mem_of_head? hc)
      exact absurd hident (ne_of_lt (hsorted.1 _ (List.mem_map_of_mem hmem)))
    rw [List.cons_append, blocksAbove, if_neg hne, ih hsorted.2]
    rfl

theorem mem_of_blocksAbove {anchor : Option Nat} {chain : List Chunk}
    {blocks : List (List FrozenFragment)} (h : blocksAbove anchor chain = some blocks) (i : Nat)
    (hi : anchor = some i) : i ∈ chain.map (·.ident) := by
  induction chain generalizing blocks with
  | nil =>
    rw [blocksAbove, hi] at h
    cases h
  | cons chunk chain ih =>
    rw [blocksAbove] at h
    split at h
    · rename_i heq
      rw [hi] at heq
      rw [Option.some.inj heq, List.map_cons]
      exact List.mem_cons_self
    · obtain ⟨rest, hrest, -⟩ := Option.map_eq_some_iff.mp h
      exact List.mem_cons_of_mem _ (ih hrest)

theorem Sound.deltaFrom_ok (h : w.Sound) (hq : q ∈ w.values) (hd : w.Derived p q) :
    ∃ blocks, q.deltaFrom p = .ok blocks ∧
      p.iterFragments ++ blocks.flatten = q.iterFragments := by
  obtain ⟨howner, new, htail⟩ := h.suffix_of_derived hd
  have hsorted := h.sorted q hq
  rw [← htail] at hsorted
  unfold deltaFrom
  rw [if_neg fun hne => hne howner, ← htail, tailIdent, blocksAbove_append hsorted]
  refine ⟨_, rfl, ?_⟩
  rw [iterFragments, iterFragments, iterBlocks, iterBlocks, ← htail, List.map_append,
    List.reverse_append, List.flatten_append]

theorem Sound.deltaFrom_error (h : w.Sound) (hp : p ∈ w.values) (hq : q ∈ w.values)
    (hd : ¬ w.Derived p q) : ∃ e, q.deltaFrom p = .error e ∧ e.Conflict := by
  unfold deltaFrom
  by_cases howner : q.owner = p.owner
  · rw [if_neg fun hne => hne howner]
    cases hblocks : blocksAbove p.tailIdent q.tail with
    | none => exact ⟨_, rfl, trivial⟩
    | some blocks =>
      exact absurd (h.linked p hp q hq howner fun i hi => mem_of_blocksAbove hblocks i hi) hd
  · rw [if_pos howner]
    exact ⟨_, rfl, trivial⟩

theorem values_of_run (h : Run Step w calls w') : w.values <+: w'.values := by
  induction h with
  | nil => exact List.prefix_refl _
  | cons hstep _ ih =>
    cases hstep with
    | returns held run => exact (List.prefix_append _ _).trans ih
    | raises held run => exact ih

/-- In every state of a run the values are exact, the new chunks over an ancestor are
those of the chain, and only an unhashable role keeps a flaw from raising a conflict. -/
theorem frozen_index_exact (h : Run Step start calls w) :
    (∀ p ∈ w.values, (∀ id ∈ p.eventIds, 0 < id) ∧ p.Exact ∧
      (∀ id, p.ids.contains id = true ↔ id ∈ p.eventIds) ∧ p.ids.size = p.eventIds.length) ∧
    (∀ p ∈ w.values, ∀ q ∈ w.values,
      (w.Derived p q → ∃ blocks, q.deltaFrom p = .ok blocks ∧
        p.iterFragments ++ blocks.flatten = q.iterFragments) ∧
      (¬ w.Derived p q → ∃ e, q.deltaFrom p = .error e ∧ e.Conflict)) ∧
    (∀ call, w.Holds call → ((call.Raises w.next ↔ call.Flawed) ↔ ¬ call.HashFails)) ∧
    ∀ calls' w', Run Step w calls' w' → w.values <+: w'.values := by
  have hs := sound_of_run h
  refine ⟨fun p hp => ?_, fun p hp q hq => ⟨hs.deltaFrom_ok hq, hs.deltaFrom_error hp hq⟩,
    fun call held => ?_, fun calls' w' hrun => values_of_run hrun⟩
  · have hexact := hs.exact p hp
    exact ⟨fun id hid => positive hid, hexact, hexact.indexed.contains,
      hexact.indexed.size hexact.nodup⟩
  · rcases Call.run_cases (hs.exact_receiver held) w.next with ⟨hflaw, hhash, q, hq, -⟩ |
      ⟨hflaw, hhash, hraises⟩ | ⟨hflaw, hhash, he⟩
    · refine iff_of_true (iff_of_false ?_ hflaw) hhash
      rintro ⟨e, he, -⟩
      cases he.symm.trans hq
    · exact iff_of_true (iff_of_true hraises hflaw) hhash
    · refine iff_of_false (fun hiff => ?_) fun hno => hno hhash
      obtain ⟨e, he', hconflict⟩ := hiff.mpr hflaw
      cases he.symm.trans he'
      exact hconflict

/-- A question that starts a candidate, and one that comes with its event. -/
def question : Compaction.ChatMessage :=
  { role := "user", content := some "hi" }

def opening : List Call :=
  [.load [], .appendCurrent (root 0) 1 question]

theorem run_opening : ∃ q, (root 0).appendCurrent 1 question 1 = .ok q ∧
    Run Step start opening ⟨[root 0, q], [(root 0, q)], 2⟩ := by
  have hload : Step start (.load []) ⟨[root 0], [], 1⟩ :=
    .returns (q := root 0) (fun p hp => by cases hp) rfl
  obtain ⟨q, hq⟩ : ∃ q, (root 0).appendCurrent 1 question 1 = .ok q := ⟨_, rfl⟩
  have happend : Step ⟨[root 0], [], 1⟩ (.appendCurrent (root 0) 1 question)
      ⟨[root 0, q], [(root 0, q)], 2⟩ :=
    .returns (q := q) (fun p hp => by cases hp; exact List.mem_cons_self) hq
  exact ⟨q, hq, .cons hload (.cons happend (.nil _))⟩

theorem frozen_index_exact_opening : ∃ w p q, Run Step start opening w ∧
    p ∈ w.values ∧ q ∈ w.values ∧ q.eventIds = [1] ∧
    (∃ blocks, q.deltaFrom p = .ok blocks ∧ p.iterFragments ++ blocks.flatten = q.iterFragments) ∧
    q.ids.size = 1 := by
  obtain ⟨q, hq, hrun⟩ := run_opening
  obtain ⟨hvalues, hdelta, -, -⟩ := frozen_index_exact hrun
  have hids : q.eventIds = [1] := by
    cases hq
    rfl
  have hmem : q ∈ [root 0, q] := by simp
  have hsize := (hvalues q hmem).2.2.2
  rw [hids] at hsize
  exact ⟨_, root 0, q, hrun, by simp, hmem, hids,
    (hdelta (root 0) (by simp) q hmem).1 (.single (by simp)), hsize⟩

/-- A stored item whose role is a list. -/
def listRole : Dict String Json :=
  [("kind", .str "model_input"), ("event_ids", .arr [.int 1]),
    ("message", .obj [("role", .arr []), ("content", .str "hi")])]

/-- The item is malformed, and loading it raises another exception. -/
theorem load_listRole_raises_typeError : start.Holds (.load [listRole]) ∧
    (Call.load [listRole]).Flawed ∧ ¬ (Call.load [listRole]).Raises start.next ∧
    (Call.load [listRole]).run start.next = .error .typeError := by
  refine ⟨fun p hp => (by cases hp), Or.inl ⟨listRole, by simp, ?_⟩, ?_, rfl⟩
  · rintro ⟨ids, message, henv, ⟨r, -, hr⟩, -⟩
    cases henv.body
    cases hr
  · rintro ⟨e, he, hconflict⟩
    cases he
    exact hconflict

/-- The extension appends what the direct filter selects, and raises exactly when that
is not the fresh part of some group or holds a malformed fragment. -/
theorem extend_history_splits (h : Run Step start calls w) (hp : p ∈ w.values)
    (order : SetOrder) (grouped individual : List EventFragment) (ident : Nat) :
    (∀ q, p.extendHistory order grouped individual ident = .ok q →
      q.iterFragments.map (·.shape) = p.iterFragments.map (·.shape) ++
        (directSplit individual p.eventIds grouped).map fun f => (f.1, publicMessage f.2)) ∧
    ((∃ e, p.extendHistory order grouped individual ident = .error e ∧ e.Conflict) ↔
      ¬ Covers individual p.eventIds grouped ∨
        ∃ f ∈ directSplit individual p.eventIds grouped, ¬ Publishable f) ∧
    ∀ e, p.extendHistory order grouped individual ident = .error e → e.Conflict := by
  obtain ⟨hok, herror⟩ := ((sound_of_run h).exact p hp).extendHistory order grouped individual ident
  by_cases hgood : Covers individual p.eventIds grouped ∧
      ∀ f ∈ directSplit individual p.eventIds grouped, Publishable f
  · obtain ⟨additions, tree, hrun, -, hshapes⟩ := hok hgood.1 hgood.2
    rw [hrun]
    refine ⟨fun q hq => ?_, iff_of_false ?_ ?_, fun e he => by cases he⟩
    · cases hq
      rw [iterFragments_attach, List.map_append, hshapes]
    · rintro ⟨e, he, -⟩
      cases he
    · rintro (hno | ⟨f, hf, hno⟩)
      · exact hno hgood.1
      · exact hno (hgood.2 f hf)
  · obtain ⟨e, he, hconflict⟩ := herror hgood
    rw [he]
    refine ⟨fun q hq => (by cases hq), iff_of_true ⟨e, rfl, hconflict⟩ ?_, fun e' he' => ?_⟩
    · by_cases hcovers : Covers individual p.eventIds grouped
      · refine Or.inr ?_
        by_contra hnone
        exact hgood ⟨hcovers, fun f hf => by_contra fun hno => hnone ⟨f, hf, hno⟩⟩
      · exact Or.inl hcovers
    · cases he'
      exact hconflict

def sameOrder : SetOrder :=
  ⟨id, fun _ => List.Perm.refl _⟩

/-- A group of which one event is covered, and its two fragments. -/
theorem extend_history_splits_overlap : ∃ w p, Run Step start opening w ∧ p ∈ w.values ∧
    ∀ q, p.extendHistory sameOrder [([1, 2], question)] [([1], question), ([2], question)] 2 =
        .ok q → q.iterFragments.map (·.shape) = [([1], question), ([2], question)] := by
  obtain ⟨p, hp, hrun⟩ := run_opening
  refine ⟨_, p, hrun, by simp, fun q hq => ?_⟩
  rw [(extend_history_splits hrun (by simp) sameOrder [([1, 2], question)]
    [([1], question), ([2], question)] 2).1 q hq]
  cases hp
  decide

/-- The identifiers of the group are its fresh ones, each once, and zero is no event. -/
theorem extend_history_rejects_zero : FrozenFragments.load [] 0 = .ok (root 0) ∧
    Covers [] (root 0).eventIds [([0], question)] ∧
    ∃ e, (root 0).extendHistory sameOrder [([0], question)] [] 1 = .error e ∧ e.Conflict := by
  refine ⟨rfl, ⟨⟨by decide, fun key => ?_⟩, trivial⟩, _, rfl, trivial⟩
  simp [pick, coverage, Fresh, root, eventIds, iterFragments, iterBlocks]

end World

end Yuki.Frozen

import Yuki.Conversation.FrozenFragments

/-! What a value of frozen fragments says about itself: its counts, and the tree
of its identifiers. -/

namespace Yuki.Frozen

/-! The checks of a fragment. -/

theorem intKeys_map (ids : List Int) : intKeys (ids.map .int) = some ids := by
  induction ids with
  | nil => rfl
  | cons id ids ih => rw [List.map_cons, intKeys, ih, Option.map_some]

theorem eq_map_of_intKeys {values : List Json} {ids : List Int} (h : intKeys values = some ids) :
    values = ids.map .int := by
  induction values generalizing ids with
  | nil =>
    cases h
    rfl
  | cons v values ih =>
    cases v with
    | int n =>
      obtain ⟨rest, hrest, rfl⟩ := Option.map_eq_some_iff.mp h
      rw [ih hrest, List.map_cons]
    | _ => cases h

/-- A fragment of the renderer that can be frozen. -/
def Publishable (fragment : EventFragment) : Prop :=
  (∀ id ∈ fragment.1, 0 < id) ∧ fragment.1.Nodup ∧ fragment.2.role ∈ roles

instance (fragment : EventFragment) : Decidable (Publishable fragment) :=
  inferInstanceAs (Decidable (_ ∧ _ ∧ _))

def Failure.Conflict : Failure → Prop
  | .projectionConflict _ => True
  | .typeError => False

variable {fragment : EventFragment}

theorem freezeEvent_ok (h : Publishable fragment) :
    ∃ frozen, freezeEvent fragment = .ok frozen ∧
      frozen.shape = (fragment.1, publicMessage fragment.2) := by
  obtain ⟨ids, message⟩ := fragment
  obtain ⟨hpos, hnd, hrole⟩ := h
  unfold freezeEvent freeze
  rw [intKeys_map]
  dsimp only at hpos hnd hrole ⊢
  rw [dif_pos hpos, dif_pos hnd]
  unfold frozenMessage
  dsimp only
  rw [dif_pos hrole]
  unfold publicMessage
  cases message.content with
  | none => exact ⟨_, rfl, rfl⟩
  | some content => exact ⟨_, rfl, rfl⟩

theorem freezeEvent_error (h : ¬ Publishable fragment) :
    ∃ e, freezeEvent fragment = .error e ∧ e.Conflict := by
  obtain ⟨ids, message⟩ := fragment
  unfold freezeEvent freeze
  rw [intKeys_map]
  dsimp only
  by_cases hpos : ∀ id ∈ ids, 0 < id
  · rw [dif_pos hpos]
    by_cases hnd : ids.Nodup
    · rw [dif_pos hnd]
      have hrole : message.role ∉ roles := fun hrole => h ⟨hpos, hnd, hrole⟩
      unfold frozenMessage
      dsimp only
      rw [dif_neg hrole]
      exact ⟨_, rfl, trivial⟩
    · rw [dif_neg hnd]
      exact ⟨_, rfl, trivial⟩
  · rw [dif_neg hpos]
    exact ⟨_, rfl, trivial⟩

theorem mapM_freezeEvent_ok {selected : List EventFragment} (h : ∀ f ∈ selected, Publishable f) :
    ∃ frozen, selected.mapM freezeEvent = .ok frozen ∧
      frozen.map (·.shape) = selected.map fun f => (f.1, publicMessage f.2) := by
  induction selected with
  | nil => exact ⟨[], rfl, rfl⟩
  | cons f selected ih =>
    obtain ⟨g, hg, hshape⟩ := freezeEvent_ok (h f List.mem_cons_self)
    obtain ⟨gs, hgs, hshapes⟩ := ih fun f' hf' => h f' (List.mem_cons_of_mem _ hf')
    refine ⟨g :: gs, ?_, by rw [List.map_cons, List.map_cons, hshape, hshapes]⟩
    rw [List.mapM_cons, hg, hgs]
    rfl

theorem mapM_freezeEvent_error {selected : List EventFragment}
    (h : ∃ f ∈ selected, ¬ Publishable f) :
    ∃ e, selected.mapM freezeEvent = .error e ∧ e.Conflict := by
  induction selected with
  | nil =>
    obtain ⟨f, hf, -⟩ := h
    simp at hf
  | cons f selected ih =>
    rw [List.mapM_cons]
    by_cases hf : Publishable f
    · obtain ⟨g, hg, -⟩ := freezeEvent_ok hf
      obtain ⟨bad, hmem, hbad⟩ := h
      have hmem' : bad ∈ selected := (List.mem_cons.mp hmem).resolve_left fun he => hbad (he ▸ hf)
      obtain ⟨e, he, hconflict⟩ := ih ⟨bad, hmem', hbad⟩
      rw [hg, he]
      exact ⟨e, rfl, hconflict⟩
    · obtain ⟨e, he, hconflict⟩ := freezeEvent_error hf
      rw [he]
      exact ⟨e, rfl, hconflict⟩

/-! The tree of the identifiers. -/

/-- A search tree in balance over exactly these identifiers. -/
structure Indexed (tree : AvlTree Int) (ids : List Int) : Prop where
  balanced : tree.Balanced
  ordered : tree.Ordered
  keys : ∀ id, id ∈ tree.keys ↔ id ∈ ids

namespace Indexed

variable {tree : AvlTree Int} {ids : List Int}

theorem nil : Indexed .nil [] :=
  ⟨.nil, List.Pairwise.nil, fun _ => Iff.rfl⟩

theorem insert (h : Indexed tree ids) (id : Int) : Indexed (tree.insert id) (ids ++ [id]) := by
  refine ⟨(h.balanced.insert id).1, h.ordered.insert id, fun k => ?_⟩
  rw [AvlTree.mem_keys_insert, h.keys, List.mem_append, List.mem_singleton]
  exact Or.comm

theorem foldl_insert (h : Indexed tree ids) (more : List Int) :
    Indexed (more.foldl (fun root value => root.insert value) tree) (ids ++ more) := by
  induction more generalizing tree ids with
  | nil => simpa using h
  | cons id more ih =>
    have hh := ih (h.insert id)
    rwa [List.append_assoc, List.singleton_append] at hh

theorem congr {ids' : List Int} (h : Indexed tree ids) (hids : ∀ id, id ∈ ids ↔ id ∈ ids') :
    Indexed tree ids' :=
  ⟨h.balanced, h.ordered, fun id => (h.keys id).trans (hids id)⟩

theorem contains (h : Indexed tree ids) (id : Int) : tree.contains id = true ↔ id ∈ ids :=
  h.ordered.contains.trans (h.keys id)

theorem size (h : Indexed tree ids) (hnd : ids.Nodup) : tree.size = ids.length := by
  rw [h.balanced.size_eq]
  have hkeys : tree.keys.Nodup := h.ordered.imp fun hlt => ne_of_lt hlt
  exact ((List.perm_ext_iff_of_nodup hkeys hnd).mpr h.keys).length_eq

/-- The size stays as it was exactly on a duplicate. -/
theorem duplicate (h : Indexed tree ids) (id : Int) :
    (tree ≠ .nil ∧ (tree.insert id).size = tree.size) ↔ id ∈ ids := by
  rw [AvlTree.size_insert h.balanced h.ordered, ← h.keys]
  by_cases hmem : id ∈ tree.keys
  · refine iff_of_true ⟨?_, if_pos hmem⟩ hmem
    rintro rfl
    simp [AvlTree.keys] at hmem
  · refine iff_of_false ?_ hmem
    rw [if_neg hmem]
    omega

end Indexed

namespace FrozenFragments

variable {frozen next : FrozenFragments} {tree : AvlTree Int} {ids : List Int}

theorem insertIds_ok (h : Indexed tree ids) {more : List Int} (hnd : (ids ++ more).Nodup) :
    ∃ tree', insertIds tree more = .ok tree' ∧ Indexed tree' (ids ++ more) := by
  induction more generalizing tree ids with
  | nil => exact ⟨tree, rfl, by simpa using h⟩
  | cons id more ih =>
    have hnew : id ∉ ids := fun hmem =>
      (List.nodup_append.mp hnd).2.2 id hmem id List.mem_cons_self rfl
    rw [insertIds, if_neg fun hdup => hnew ((h.duplicate id).mp hdup)]
    have hassoc : ids ++ [id] ++ more = ids ++ id :: more := by simp
    rw [← hassoc] at hnd ⊢
    exact ih (h.insert id) hnd

theorem insertIds_error (h : Indexed tree ids) (hids : ids.Nodup) {more : List Int}
    (hnd : ¬ (ids ++ more).Nodup) :
    insertIds tree more = .error (.projectionConflict "duplicate frozen event") := by
  induction more generalizing tree ids with
  | nil => exact absurd (by simpa using hids) hnd
  | cons id more ih =>
    rw [insertIds]
    by_cases hmem : id ∈ ids
    · rw [if_pos ((h.duplicate id).mpr hmem)]
    · rw [if_neg fun hdup => hmem ((h.duplicate id).mp hdup)]
      have hassoc : ids ++ [id] ++ more = ids ++ id :: more := by simp
      rw [← hassoc] at hnd
      refine ih (h.insert id) ?_ hnd
      rw [List.nodup_append_comm]
      exact List.nodup_cons.mpr ⟨hmem, hids⟩

/-! What a value says about its fragments. -/

def eventIds (frozen : FrozenFragments) : List Int :=
  frozen.iterFragments.flatMap (·.eventIds)

structure Exact (frozen : FrozenFragments) : Prop where
  nodup : frozen.eventIds.Nodup
  indexed : Indexed frozen.ids frozen.eventIds
  len : frozen.len = frozen.iterFragments.length
  characters : frozen.characterCount = (frozen.iterFragments.map (·.characters)).sum
  first : frozen.firstEventId = frozen.eventIds.head?

theorem positive {id : Int} (h : id ∈ frozen.eventIds) : 0 < id := by
  obtain ⟨fragment, -, hid⟩ := List.mem_flatMap.mp h
  exact fragment.positive id hid

theorem exact_root (owner : Nat) : (root owner).Exact :=
  ⟨List.nodup_nil, .nil, rfl, rfl, rfl⟩

variable {fragments : List FrozenFragment} {ident : Nat}

theorem iterFragments_attach (frozen : FrozenFragments) (fragments : List FrozenFragment)
    (tree : AvlTree Int) (ident : Nat) :
    (frozen.attach fragments tree ident).iterFragments = frozen.iterFragments ++ fragments := by
  unfold attach
  split
  · rename_i h
    rw [h, List.append_nil]
  · simp [iterFragments, iterBlocks]

theorem eventIds_attach (frozen : FrozenFragments) (fragments : List FrozenFragment)
    (tree : AvlTree Int) (ident : Nat) :
    (frozen.attach fragments tree ident).eventIds =
      frozen.eventIds ++ fragments.flatMap (·.eventIds) := by
  rw [eventIds, iterFragments_attach, List.flatMap_append, eventIds]

theorem findSome_head (fragments : List FrozenFragment) :
    (fragments.findSome? fun fragment => fragment.eventIds.head?) =
      (fragments.flatMap (·.eventIds)).head? := by
  induction fragments with
  | nil => rfl
  | cons fragment fragments ih =>
    rw [List.findSome?_cons, List.flatMap_cons, List.head?_append, ← ih]
    cases fragment.eventIds.head? <;> rfl

theorem Exact.attach (h : frozen.Exact) (ident : Nat)
    (hindexed : Indexed tree (frozen.eventIds ++ fragments.flatMap (·.eventIds)))
    (hnd : (frozen.eventIds ++ fragments.flatMap (·.eventIds)).Nodup) :
    (frozen.attach fragments tree ident).Exact := by
  by_cases he : fragments = []
  · rw [FrozenFragments.attach, if_pos he]
    exact h
  · have hiter := iterFragments_attach frozen fragments tree ident
    have hids := eventIds_attach frozen fragments tree ident
    constructor
    · rw [hids]
      exact hnd
    · rw [hids]
      rw [FrozenFragments.attach, if_neg he]
      exact hindexed
    · rw [hiter, List.length_append, ← h.len, FrozenFragments.attach, if_neg he]
      rfl
    · rw [hiter, List.map_append, List.sum_append, ← h.characters, FrozenFragments.attach,
        if_neg he]
      rfl
    · rw [hids, List.head?_append, ← h.first, ← findSome_head, FrozenFragments.attach, if_neg he]
      have hnonzero : frozen.firstEventId.filter (· ≠ 0) = frozen.firstEventId := by
        cases hfirst : frozen.firstEventId with
        | none => rfl
        | some id =>
          have hmem : id ∈ frozen.eventIds := List.mem_of_head? (h.first ▸ hfirst)
          have hpos := positive hmem
          exact Option.filter_eq_some_iff.mpr ⟨rfl, by simpa using ne_of_gt hpos⟩
      change (frozen.firstEventId.filter (· ≠ 0)).or _ = _
      rw [hnonzero]

theorem Exact.append_ok (h : frozen.Exact) (fragments : List FrozenFragment) (ident : Nat)
    (hnd : (frozen.eventIds ++ fragments.flatMap (·.eventIds)).Nodup) :
    ∃ tree, frozen.append fragments ident = .ok (frozen.attach fragments tree ident) ∧
      (frozen.attach fragments tree ident).Exact := by
  unfold append
  by_cases he : fragments = []
  · refine ⟨frozen.ids, ?_, ?_⟩
    · rw [if_pos he, FrozenFragments.attach, if_pos he]
    · rw [FrozenFragments.attach, if_pos he]
      exact h
  · obtain ⟨tree, htree, hindexed⟩ := insertIds_ok h.indexed hnd
    rw [if_neg he, htree]
    exact ⟨tree, rfl, h.attach ident hindexed hnd⟩

theorem Exact.append_error (h : frozen.Exact) (fragments : List FrozenFragment) (ident : Nat)
    (hnd : ¬ (frozen.eventIds ++ fragments.flatMap (·.eventIds)).Nodup) :
    frozen.append fragments ident = .error (.projectionConflict "duplicate frozen event") := by
  unfold append
  by_cases he : fragments = []
  · rw [he, List.flatMap_nil, List.append_nil] at hnd
    exact absurd h.nodup hnd
  · rw [if_neg he, insertIds_error h.indexed h.nodup hnd]
    rfl

end FrozenFragments

end Yuki.Frozen

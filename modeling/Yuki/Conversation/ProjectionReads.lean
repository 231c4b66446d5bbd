import Yuki.Conversation.Projections

/-! What is stored of candidates and what a reader makes of it: the sizes are those of
the text, and the blocks come back. -/

namespace Yuki.Projection

open Compaction (strOrNull)
open Frozen FrozenFragments

/-! Sizes. -/

theorem charsItems_append (comma colon : List Char) {ys : List Json} (hy : ys ≠ [])
    (xs : List Json) : Json.charsItems comma colon (xs ++ ys) =
      Json.charsItems comma colon xs ++ (if xs = [] then [] else comma) ++
        Json.charsItems comma colon ys := by
  induction xs with
  | nil => rfl
  | cons x xs ih =>
    cases xs with
    | nil =>
      obtain ⟨y, ys, rfl⟩ := List.exists_cons_of_ne_nil hy
      rfl
    | cons x' xs =>
      have hx : x' :: xs ≠ [] := List.cons_ne_nil _ _
      rw [if_neg hx] at ih
      change _ ++ comma ++ Json.charsItems comma colon (x' :: xs ++ ys) = _
      rw [ih, if_neg (List.cons_ne_nil _ _)]
      change _ = _ ++ comma ++ Json.charsItems comma colon (x' :: xs) ++ comma ++ _
      simp only [List.append_assoc]

theorem utf8Length_encodeItems (items : List Item) : utf8Length (encodeItems items) =
    (Utf8.encode (Json.charsItems [','] [':'] (items.map .obj))).length + 2 := by
  rw [utf8Length, encodeItems, Json.minify, String.toList_ofList, Json.chars]
  simp only [Utf8.encode, List.cons_append, List.flatMap_cons, List.flatMap_append,
    List.flatMap_nil, List.length_append]
  have hopen : (Utf8.encodeChar '[').length = 1 := rfl
  have hclose : (Utf8.encodeChar ']').length = 1 := rfl
  rw [hopen, hclose, List.length_nil]
  omega

theorem utf8Length_append (xs : List Item) {ys : List Item} (hy : ys ≠ []) :
    utf8Length (encodeItems (xs ++ ys)) = utf8Length (encodeItems xs) +
      (utf8Length (encodeItems ys) - 2 + if xs.length = 0 then 0 else 1) := by
  have hy' : ys.map Json.obj ≠ [] := fun h => hy (List.map_eq_nil_iff.mp h)
  simp only [utf8Length_encodeItems]
  rw [List.map_append, charsItems_append _ _ hy']
  simp only [Utf8.encode, List.flatMap_append, List.length_append]
  have hcomma : (Utf8.encodeChar ',').length = 1 := rfl
  by_cases hx : xs = []
  · subst hx
    simp only [List.map_nil, List.flatMap_nil, List.length_nil, if_true]
    omega
  · have hx' : xs.map Json.obj ≠ [] := fun h => hx (List.map_eq_nil_iff.mp h)
    rw [if_neg hx', if_neg fun h => hx (List.length_eq_zero_iff.mp h), List.flatMap_cons,
      List.flatMap_nil, List.append_nil, hcomma]
    omega

/-- The bytes of the compact text of these fragments. -/
def bytesOf (fragments : List FrozenFragment) : Nat :=
  utf8Length (encodeItems (fragments.map item))

theorem bytesOf_append (xs : List FrozenFragment) {ys : List FrozenFragment} (hy : ys ≠ []) :
    bytesOf (xs ++ ys) = bytesOf xs + (bytesOf ys - 2 + if xs.length = 0 then 0 else 1) := by
  have hy' : ys.map item ≠ [] := fun h => hy (List.map_eq_nil_iff.mp h)
  rw [bytesOf, List.map_append, utf8Length_append _ hy', List.length_map]
  rfl

/-- The sizes are carried over the blocks, of which the empty ones leave nothing. -/
theorem foldl_add (blocks : List (List FrozenFragment)) (e : Encoded) (before : List FrozenFragment)
    (hsize : e.size = bytesOf before) (hcount : e.count = before.length) :
    ∃ added : List (List FrozenFragment), added.flatten = blocks.flatten ∧
      (blocks.foldl Encoded.add e).encoded = e.encoded ++ added.map (·.map item) ∧
      (blocks.foldl Encoded.add e).size = bytesOf (before ++ blocks.flatten) ∧
      (blocks.foldl Encoded.add e).count = (before ++ blocks.flatten).length := by
  induction blocks generalizing e before with
  | nil => exact ⟨[], by simp [hsize, hcount]⟩
  | cons block blocks ih =>
    by_cases hb : block = []
    · subst hb
      have hadd : e.add [] = e := rfl
      rw [List.foldl_cons, hadd]
      exact ih e before hsize hcount
    · have hb' : block.map item ≠ [] := fun h => hb (List.map_eq_nil_iff.mp h)
      have hadd : e.add block =
          { size := e.size + (utf8Length (encodeItems (block.map item)) - 2 +
              (if e.count = 0 then 0 else 1))
            count := e.count + (block.map item).length
            encoded := e.encoded ++ [block.map item] } := if_neg hb'
      obtain ⟨added, hflat, henc, hsize', hcount'⟩ := ih (e.add block) (before ++ block)
        (by rw [hadd, bytesOf_append _ hb, hsize, hcount]; rfl)
        (by rw [hadd, hcount, List.length_append, List.length_map])
      refine ⟨block :: added, by rw [List.flatten_cons, List.flatten_cons, hflat], ?_, ?_, ?_⟩
      · rw [List.foldl_cons, henc, hadd, List.map_cons, List.append_assoc, List.singleton_append]
      · rw [List.foldl_cons, hsize', List.flatten_cons, List.append_assoc]
      · rw [List.foldl_cons, hcount', List.flatten_cons, List.append_assoc]

/-! Loading. -/

theorem loadItem_item (fragment : FrozenFragment) : loadItem (item fragment) = .ok fragment := by
  have henv : Envelope (item fragment) fragment.eventIds
      [("role", .str fragment.message.role), ("content", strOrNull fragment.message.content)] :=
    ⟨rfl, rfl, rfl, rfl, rfl, fragment.positive, fragment.nodup⟩
  have hrole : field [("role", Json.str fragment.message.role),
      ("content", strOrNull fragment.message.content)] "role" = .str fragment.message.role := rfl
  have hcontent : field [("role", Json.str fragment.message.role),
      ("content", strOrNull fragment.message.content)] "content" =
        strOrNull fragment.message.content := rfl
  have hmessage : ∃ m, frozenMessage (.str fragment.message.role)
      (strOrNull fragment.message.content) = .ok m ∧ m.1 = fragment.message := by
    rw [← fragment.plain]
    unfold frozenMessage publicMessage
    dsimp only
    rw [dif_pos fragment.known]
    cases fragment.message.content <;> exact ⟨_, rfl, rfl⟩
  obtain ⟨⟨m, hknown, hplain⟩, hm, hsame⟩ := hmessage
  change m = _ at hsame
  rw [loadItem_of_envelope henv, hrole, hcontent, hm, ok_bind]
  subst hsame
  rfl

theorem mapM_loadItem (fragments : List FrozenFragment) :
    (fragments.map item).mapM loadItem = .ok fragments := by
  induction fragments with
  | nil => rfl
  | cons fragment fragments ih =>
    rw [List.map_cons, List.mapM_cons, loadItem_item, ih]
    rfl

variable {w : Frozen.World} {p q : FrozenFragments} {ident : Nat}

theorem iterFragments_append {fragments : List FrozenFragment}
    (h : p.append fragments ident = .ok q) : q.iterFragments = p.iterFragments ++ fragments := by
  unfold FrozenFragments.append at h
  split at h
  · rename_i hnil
    cases h
    rw [hnil, List.append_nil]
  · obtain ⟨tree, -, h⟩ := bind_eq_ok.mp h
    cases h
    exact iterFragments_attach p fragments tree ident

theorem iterFragments_load (fragments : List FrozenFragment)
    (h : load (fragments.map item) ident = .ok q) : q.iterFragments = fragments := by
  rw [load, mapM_loadItem, ok_bind] at h
  exact (iterFragments_append h).trans (List.nil_append _)

theorem iterFragments_extendBlocks {block : List FrozenFragment}
    (h : p.extendBlocks ident [block] = .ok q) :
    q.iterFragments = p.iterFragments ++ block := by
  obtain ⟨next, hnext, h⟩ := bind_eq_ok.mp h
  cases h
  exact iterFragments_append hnext

/-- A call on held candidates keeps the world sound, and holds what it returns. -/
theorem act_spec (hs : w.Sound) (call : Call) (held : w.Holds call) :
    (act w call).2.Sound ∧ w.values <+: (act w call).2.values ∧
      ∀ q, (act w call).1 = .ok q → q ∈ (act w call).2.values ∧ call.run w.next = .ok q := by
  unfold act
  cases hrun : call.run w.next with
  | ok q =>
    refine ⟨hs.step (.returns held hrun), List.prefix_append _ _, fun q' hq' => ?_⟩
    cases hq'
    exact ⟨List.mem_append_right _ (List.mem_singleton_self q), rfl⟩
  | error e => exact ⟨hs.step (.raises held hrun), List.prefix_refl _, fun q hq => by cases hq⟩

theorem extendPayloads_spec (hs : w.Sound) (hp : p ∈ w.values)
    (blocks : List (List FrozenFragment)) :
    (extendPayloads w p (blocks.map (·.map item))).2.Sound ∧
      w.values <+: (extendPayloads w p (blocks.map (·.map item))).2.values ∧
      ∀ q, (extendPayloads w p (blocks.map (·.map item))).1 = .ok q →
        q ∈ (extendPayloads w p (blocks.map (·.map item))).2.values ∧
          q.iterFragments = p.iterFragments ++ blocks.flatten := by
  induction blocks generalizing w p with
  | nil =>
    refine ⟨hs, List.prefix_refl _, fun q hq => ?_⟩
    cases hq
    exact ⟨hp, (List.append_nil _).symm⟩
  | cons block blocks ih =>
    obtain ⟨hs₁, hv₁, hok₁⟩ := act_spec hs (.load (block.map item)) fun p' hp' => by cases hp'
    rw [List.map_cons, extendPayloads]
    split
    · rename_i e w₁ hact
      rw [hact] at hs₁ hv₁
      exact ⟨hs₁, hv₁, fun σ hσ => by cases hσ⟩
    · rename_i loaded w₁ hact
      rw [hact] at hs₁ hv₁ hok₁
      have hloaded := iterFragments_load block (hok₁ loaded rfl).2
      obtain ⟨hs₂, hv₂, hok₂⟩ := act_spec hs₁ (.extendBlocks p [loaded.iterFragments])
        fun p' hp' => by
          cases hp'
          exact hv₁.subset hp
      split
      · rename_i e w₂ hact₂
        rw [hact₂] at hs₂ hv₂
        exact ⟨hs₂, hv₁.trans hv₂, fun q hq => by cases hq⟩
      · rename_i next w₂ hact₂
        rw [hact₂] at hs₂ hv₂ hok₂
        obtain ⟨hnext, hrun⟩ := hok₂ next rfl
        obtain ⟨hs₃, hv₃, hok₃⟩ := ih hs₂ hnext
        refine ⟨hs₃, hv₁.trans (hv₂.trans hv₃), fun q hq => ?_⟩
        obtain ⟨hq', hiter⟩ := hok₃ q hq
        refine ⟨hq', ?_⟩
        rw [hiter, iterFragments_extendBlocks hrun, hloaded, List.flatten_cons, List.append_assoc]

/-- Payloads without a repeated event are never refused. -/
theorem extendPayloads_ok (hs : w.Sound) (hp : p ∈ w.values) (blocks : List (List FrozenFragment))
    (hnodup : (p.eventIds ++ blocks.flatten.flatMap (·.eventIds)).Nodup) :
    ∃ q, (extendPayloads w p (blocks.map (·.map item))).1 = .ok q := by
  induction blocks generalizing w p with
  | nil => exact ⟨p, rfl⟩
  | cons block blocks ih =>
    rw [List.flatten_cons, List.flatMap_append, ← List.append_assoc] at hnodup
    have hblock := List.Nodup.of_append_left hnodup
    obtain ⟨hs₁, hv₁, hok₁⟩ := act_spec hs (.load (block.map item)) fun p' hp' => by cases hp'
    rw [List.map_cons, extendPayloads]
    obtain ⟨tree, hload, -⟩ := (exact_root w.next).append_ok block w.next
      (List.Nodup.of_append_right hblock)
    have hrun : Call.run w.next (.load (block.map item)) =
        .ok ((root w.next).attach block tree w.next) := by
      change load _ _ = _
      rw [load, mapM_loadItem, ok_bind, hload]
    split
    · rename_i e w₁ hact
      rw [act, hrun] at hact
      cases hact
    · rename_i loaded w₁ hact
      rw [hact] at hs₁ hv₁ hok₁
      have hloaded := iterFragments_load block (hok₁ loaded rfl).2
      have hmem := hv₁.subset hp
      obtain ⟨hs₂, hv₂, hok₂⟩ := act_spec hs₁ (.extendBlocks p [loaded.iterFragments])
        fun p' hp' => by
          cases hp'
          exact hmem
      obtain ⟨next, hextend, -⟩ := ((hs₁.exact p hmem).extendBlocks w₁.next
        [loaded.iterFragments]).1 (by simpa [hloaded] using hblock)
      have hrun' : Call.run w₁.next (.extendBlocks p [loaded.iterFragments]) = .ok next := hextend
      split
      · rename_i e w₂ hact₂
        rw [act, hrun'] at hact₂
        cases hact₂
      · rename_i next' w₂ hact₂
        rw [hact₂] at hs₂ hv₂ hok₂
        obtain ⟨hnext, hrun₂⟩ := hok₂ next' rfl
        refine ih hs₂ hnext ?_
        rwa [eventIds, iterFragments_extendBlocks hrun₂, hloaded, List.flatMap_append, ← eventIds]

/-- The chunks of a head hold these blocks, and the head counts them. -/
structure Db.Stored (db : Db) (row : ProjectionRow) (blocks : List (List FrozenFragment)) :
    Prop where
  tail : row.tailOrdinal = blocks.length
  chunks : ∀ n, db.chunks.get? (row.viewKey, row.epochId, n + 1) =
    blocks[n]?.map fun block => ⟨row.viewKey, row.epochId, n + 1, block.map item⟩
  count : row.itemCount = blocks.flatten.length
  bytes : row.byteSize = bytesOf blocks.flatten
  nodup : (blocks.flatten.flatMap (·.eventIds)).Nodup

theorem filterMap_getElem_range {α : Type} (xs : List α) :
    ((List.range xs.length).filterMap fun n => xs[n]?) = xs := by
  induction xs with
  | nil => rfl
  | cons x xs ih =>
    rw [List.length_cons, List.range_succ_eq_map]
    simp only [List.filterMap_cons, List.getElem?_cons_zero, List.filterMap_map]
    exact congrArg (x :: ·) ih

variable {db : Db} {row : ProjectionRow} {blocks : List (List FrozenFragment)}

theorem Db.Stored.payloads (h : db.Stored row blocks) (after : Nat) :
    db.payloads row.viewKey row.epochId after row.tailOrdinal =
      (blocks.drop after).map (·.map item) := by
  have hget : ∀ n, (db.chunks.get? (row.viewKey, row.epochId, after + n + 1)).map (·.payload) =
      ((blocks.drop after).map (·.map item))[n]? := by
    intro n
    rw [h.chunks, Option.map_map, List.getElem?_map, List.getElem?_drop]
    rfl
  have hlen : row.tailOrdinal - after = ((blocks.drop after).map (·.map item)).length := by
    rw [h.tail, List.length_map, List.length_drop]
  rw [Db.payloads, hlen]
  simp only [hget]
  exact filterMap_getElem_range _

theorem loadRow_spec (hs : w.Sound) (hp : p ∈ w.values) (h : db.Stored row blocks) (after : Nat)
    (hcovered : p.iterFragments = (blocks.take after).flatten) :
    (loadRow db row w p after).2.Sound ∧ w.values <+: (loadRow db row w p after).2.values ∧
      ∀ σ, (loadRow db row w p after).1 = .ok σ →
        ∃ q ∈ (loadRow db row w p after).2.values, σ = snapshot row q ∧
          q.iterFragments = blocks.flatten := by
  obtain ⟨hs', hv, hok⟩ := extendPayloads_spec hs hp (blocks.drop after)
  rw [← h.payloads after] at hs' hv hok
  unfold loadRow
  split
  · rename_i e w₁ hload
    rw [hload] at hs' hv
    exact ⟨hs', hv, fun σ hσ => by cases hσ⟩
  · rename_i q w₁ hload
    rw [hload] at hs' hv hok
    obtain ⟨hq, hiter⟩ := hok q rfl
    split
    · refine ⟨hs', hv, fun σ hσ => ?_⟩
      cases hσ
      refine ⟨q, hq, rfl, ?_⟩
      rw [hiter, hcovered, ← List.flatten_append, List.take_append_drop]
    · exact ⟨hs', hv, fun σ hσ => by cases hσ⟩

theorem loadRow_ok (hs : w.Sound) (hp : p ∈ w.values) (h : db.Stored row blocks) (after : Nat)
    (hcovered : p.iterFragments = (blocks.take after).flatten) :
    ∃ σ, (loadRow db row w p after).1 = .ok σ := by
  have hnodup : (p.eventIds ++ (blocks.drop after).flatten.flatMap (·.eventIds)).Nodup := by
    rw [eventIds, hcovered, ← List.flatMap_append, ← List.flatten_append, List.take_append_drop]
    exact h.nodup
  obtain ⟨q, hq⟩ := extendPayloads_ok hs hp (blocks.drop after) hnodup
  obtain ⟨hs', -, hok⟩ := extendPayloads_spec hs hp (blocks.drop after)
  rw [← h.payloads after] at hq hs' hok
  unfold loadRow
  split
  · rename_i e w₁ hload
    rw [hload] at hq
    cases hq
  · rename_i q' w₁ hload
    rw [hload] at hs' hok
    obtain ⟨hmem, hiter⟩ := hok q' rfl
    have hlen : q'.len = row.itemCount := by
      rw [(hs'.exact q' hmem).len, hiter, hcovered, ← List.flatten_append, List.take_append_drop,
        h.count]
    rw [if_pos hlen]
    exact ⟨_, rfl⟩

/-- A read of a valid row does not fail. -/
theorem readRow_ok (hs : w.Sound) (previous : Option Snapshot) (h : db.Stored row blocks)
    (hprevious : ∀ σ, previous = some σ → σ.fragments ∈ w.values ∧
      (σ.prefixStamp.epochId = row.epochId →
        σ.fragments.iterFragments = (blocks.take σ.tailOrdinal).flatten))
    (hvalid : row.invalidatedReason = none) : ∃ σ, (readRow db row previous w).1 = .ok σ := by
  unfold readRow
  split
  · exact ⟨_, rfl⟩
  · split
    · rename_i before _ hbefore
      obtain ⟨hsome, hepoch⟩ := Option.filter_eq_some_iff.mp hbefore
      simp only [sameEpoch, Bool.and_eq_true, decide_eq_true_eq] at hepoch
      obtain ⟨hmem, hcovered⟩ := hprevious before hsome
      exact loadRow_ok hs hmem h _ (hcovered hepoch.1.1.1)
    · obtain ⟨hs₁, hv₁, hok₁⟩ := act_spec hs (.load []) fun p' hp' => by cases hp'
      split
      · rename_i e w₁ hact
        have hrun : Call.run w.next (.load []) = .ok (root w.next) := rfl
        rw [act, hrun] at hact
        cases hact
      · rename_i empty w₁ hact
        rw [hact] at hs₁ hok₁
        obtain ⟨hempty, hrun⟩ := hok₁ empty rfl
        exact loadRow_ok hs₁ hempty h 0 (iterFragments_load [] hrun)
    · rename_i reason hreason
      rw [hvalid] at hreason
      cases hreason

/-- A read hands out the snapshot it was given, or one of the whole row. -/
theorem readRow_spec (hs : w.Sound) (previous : Option Snapshot)
    (hrow : row.invalidatedReason = none → db.Stored row blocks)
    (hprevious : ∀ σ, previous = some σ → σ.fragments ∈ w.values ∧
      (σ.prefixStamp.epochId = row.epochId → row.invalidatedReason = none →
        σ.fragments.iterFragments = (blocks.take σ.tailOrdinal).flatten)) :
    (readRow db row previous w).2.Sound ∧ w.values <+: (readRow db row previous w).2.values ∧
      ∀ σ, (readRow db row previous w).1 = .ok σ →
        (previous = some σ ∧ σ.prefixStamp = prefixVersion row) ∨
        ∃ q ∈ (readRow db row previous w).2.values, σ = snapshot row q ∧
          (row.invalidatedReason = none → q.iterFragments = blocks.flatten) ∧
          (row.invalidatedReason ≠ none → q.iterFragments = []) := by
  unfold readRow
  split
  · rename_i same hsame
    refine ⟨hs, List.prefix_refl _, fun σ hσ => ?_⟩
    cases hσ
    obtain ⟨hsome, hstamp⟩ := Option.filter_eq_some_iff.mp hsame
    exact Or.inl ⟨hsome, of_decide_eq_true hstamp⟩
  · obtain ⟨hs₁, hv₁, hok₁⟩ := act_spec hs (.load []) fun p' hp' => by cases hp'
    split
    · rename_i before hvalid hbefore
      obtain ⟨hsome, hepoch⟩ := Option.filter_eq_some_iff.mp hbefore
      simp only [sameEpoch, Bool.and_eq_true, decide_eq_true_eq] at hepoch
      obtain ⟨hmem, hcovered⟩ := hprevious before hsome
      obtain ⟨hs', hv, hok⟩ := loadRow_spec hs hmem (hrow hvalid) _ (hcovered hepoch.1.1.1 hvalid)
      refine ⟨hs', hv, fun σ hσ => Or.inr ?_⟩
      obtain ⟨q, hq, he, hiter⟩ := hok σ hσ
      exact ⟨q, hq, he, fun _ => hiter, fun hno => absurd hvalid hno⟩
    · rename_i hvalid _
      split
      · rename_i e w₁ hact
        rw [hact] at hs₁ hv₁
        exact ⟨hs₁, hv₁, fun σ hσ => by cases hσ⟩
      · rename_i empty w₁ hact
        rw [hact] at hs₁ hv₁ hok₁
        obtain ⟨hempty, hrun⟩ := hok₁ empty rfl
        have hnil : empty.iterFragments = [] := iterFragments_load [] hrun
        obtain ⟨hs', hv, hok⟩ := loadRow_spec hs₁ hempty (hrow hvalid) 0 hnil
        refine ⟨hs', hv₁.trans hv, fun σ hσ => Or.inr ?_⟩
        obtain ⟨q, hq, he, hiter⟩ := hok σ hσ
        exact ⟨q, hq, he, fun _ => hiter, fun hno => absurd hvalid hno⟩
    · rename_i reason hreason
      split
      · rename_i e w₁ hact
        rw [hact] at hs₁ hv₁
        exact ⟨hs₁, hv₁, fun σ hσ => by cases hσ⟩
      · rename_i empty w₁ hact
        rw [hact] at hs₁ hv₁ hok₁
        obtain ⟨hempty, hrun⟩ := hok₁ empty rfl
        refine ⟨hs₁, hv₁, fun σ hσ => Or.inr ?_⟩
        cases hσ
        refine ⟨empty, hempty, rfl, fun hno => ?_, fun _ => iterFragments_load [] hrun⟩
        rw [hreason] at hno
        cases hno

end Yuki.Projection

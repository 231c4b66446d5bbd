import Mathlib.Data.List.Dedup
import Mathlib.Data.List.Perm.Subperm
import Yuki.Conversation.FrozenIndex

/-! The indexed split of overlapping groups is a direct filter of the individual
fragments. -/

namespace Yuki.Frozen

/-! What the extension is for: a group is skipped, taken whole, or replaced by the
individual fragments of its fresh part. -/

/-- The identifiers of a group that are not covered yet. -/
def Fresh (covered : List Int) (group : EventFragment) (key : Int) : Prop :=
  key ∈ group.1 ∧ key ∉ covered

instance (covered : List Int) (group : EventFragment) (key : Int) :
    Decidable (Fresh covered group key) :=
  inferInstanceAs (Decidable (_ ∧ _))

def pick (covered : List Int) (individual : List EventFragment) (group : EventFragment) :
    List EventFragment :=
  if ∀ key ∈ group.1, key ∈ covered then []
  else if ∀ key ∈ group.1, key ∉ covered then [group]
  else individual.filter fun fragment => fragment.1.all fun key => decide (Fresh covered group key)

def coverage (selected : List EventFragment) : List Int :=
  selected.flatMap (·.1)

/-- The selected identifiers are the fresh identifiers of the group, each once. -/
def EachOnce (covered : List Int) (group : EventFragment) (selected : List EventFragment) : Prop :=
  (coverage selected).Nodup ∧ ∀ key, key ∈ coverage selected ↔ Fresh covered group key

/-- Group by group, with what was selected for a group covered for the later ones. -/
def directSplit (individual : List EventFragment) : List Int → List EventFragment →
    List EventFragment
  | _, [] => []
  | covered, group :: groups =>
    pick covered individual group ++
      directSplit individual (covered ++ coverage (pick covered individual group)) groups

def Covers (individual : List EventFragment) : List Int → List EventFragment → Prop
  | _, [] => True
  | covered, group :: groups =>
    EachOnce covered group (pick covered individual group) ∧
      Covers individual (covered ++ coverage (pick covered individual group)) groups

namespace FrozenFragments

variable {individual : List EventFragment} {covered : List Int} {state : Split}
  {group : EventFragment}

/-- The loop state after the groups that cover these identifiers. -/
structure Fits (individual : List EventFragment) (covered : List Int) (state : Split) : Prop where
  indexed : Indexed state.covered covered
  index : state.index = none ∨ state.index = some (CoverIndex.build (·.1) individual)

/-- The outcome of a step that selects these fragments: they join the additions, or it stops. -/
def Selects (order : SetOrder) (individual : List EventFragment) (covered : List Int)
    (group : EventFragment) (state : Split) (selected : List EventFragment) : Prop :=
  (EachOnce covered group selected → (∀ f ∈ selected, Publishable f) →
    ∃ state', splitGroup order individual state group = .ok state' ∧
      Fits individual (covered ++ coverage selected) state' ∧
      state'.additions.map (·.shape) = state.additions.map (·.shape) ++
        selected.map fun f => (f.1, publicMessage f.2)) ∧
  (¬ (EachOnce covered group selected ∧ ∀ f ∈ selected, Publishable f) →
    ∃ e, splitGroup order individual state group = .error e ∧ e.Conflict)

theorem indexed_union (order : SetOrder) {tree : AvlTree Int} (h : Indexed tree covered)
    (fresh : List Int) : Indexed (union order tree fresh) (covered ++ fresh) :=
  (h.foldl_insert (order.iter fresh)).congr fun id => by
    rw [List.mem_append, List.mem_append, (order.perm fresh).mem_iff]

/-- The set comparison and the lengths say that every fresh identifier is there once. -/
theorem coverage_iff {selected : List EventFragment} {fresh : List Int} (hnd : fresh.Nodup)
    (hfresh : ∀ key, key ∈ fresh ↔ Fresh covered group key) :
    ((∀ key ∈ coverage selected, key ∈ fresh) ∧ (∀ key ∈ fresh, key ∈ coverage selected) ∧
      (coverage selected).length = fresh.length) ↔ EachOnce covered group selected := by
  constructor
  · rintro ⟨hsub, hsup, hlen⟩
    have hperm : fresh.Subperm (coverage selected) := List.subperm_of_subset hnd hsup
    have hperm' := hperm.perm_of_length_le (Nat.le_of_eq hlen)
    exact ⟨hperm'.nodup_iff.mp hnd, fun key =>
      ⟨fun h => (hfresh key).mp (hsub key h), fun h => hsup key ((hfresh key).mpr h)⟩⟩
  · rintro ⟨hnd', hiff⟩
    have hperm := (List.perm_ext_iff_of_nodup hnd' hnd).mpr fun key =>
      (hiff key).trans (hfresh key).symm
    exact ⟨fun key h => hperm.mem_iff.mp h, fun key h => hperm.mem_iff.mpr h, hperm.length_eq⟩

theorem take_spec (order : SetOrder) {fresh : List Int} {selected : List EventFragment}
    (hstate : Fits individual covered state) (hnd : fresh.Nodup)
    (hfresh : ∀ key, key ∈ fresh ↔ Fresh covered group key) :
    (EachOnce covered group selected → (∀ f ∈ selected, Publishable f) →
      ∃ state', take order state fresh selected = .ok state' ∧
        Fits individual (covered ++ coverage selected) state' ∧
        state'.additions.map (·.shape) = state.additions.map (·.shape) ++
          selected.map fun f => (f.1, publicMessage f.2)) ∧
    (¬ (EachOnce covered group selected ∧ ∀ f ∈ selected, Publishable f) →
      ∃ e, take order state fresh selected = .error e ∧ e.Conflict) := by
  have hiff : _ ↔ EachOnce covered group selected := coverage_iff hnd hfresh
  unfold coverage at hiff
  unfold take
  dsimp only
  constructor
  · intro honce hpub
    obtain ⟨frozen, hrun, hshape⟩ := mapM_freezeEvent_ok hpub
    rw [if_pos (hiff.mpr honce), hrun]
    refine ⟨_, rfl, ⟨?_, hstate.index⟩, ?_⟩
    · refine (indexed_union order hstate.indexed fresh).congr fun id => ?_
      rw [List.mem_append, List.mem_append, hfresh, ← honce.2]
    · rw [List.map_append, hshape]
  · intro hbad
    by_cases honce : EachOnce covered group selected
    · rw [if_pos (hiff.mpr honce)]
      obtain ⟨e, he, hconflict⟩ := mapM_freezeEvent_error
        (by simpa using fun hpub => hbad ⟨honce, hpub⟩)
      rw [he]
      exact ⟨e, rfl, hconflict⟩
    · rw [if_neg fun h => honce (hiff.mp h)]
      exact ⟨_, rfl, trivial⟩

theorem splitGroup_spec (order : SetOrder) (hstate : Fits individual covered state)
    (group : EventFragment) :
    Selects order individual covered group state (pick covered individual group) := by
  have hnd : (group.1.filter fun key => !state.covered.contains key).dedup.Nodup :=
    List.nodup_dedup _
  have hfresh : ∀ key, key ∈ (group.1.filter fun key => !state.covered.contains key).dedup ↔
      Fresh covered group key := by
    intro key
    rw [List.mem_dedup, List.mem_filter, Bool.not_eq_true', Fresh, ← hstate.indexed.contains key,
      Bool.not_eq_true]
  unfold Selects splitGroup
  dsimp only
  generalize (group.1.filter fun key => !state.covered.contains key).dedup = fresh at hnd hfresh
  by_cases hnone : fresh = []
  · -- nothing of the group is fresh
    have hall : ∀ key ∈ group.1, key ∈ covered := fun key hkey => by_contra fun hnot => by
      have := (hfresh key).mpr ⟨hkey, hnot⟩
      simp [hnone] at this
    have hpick : pick covered individual group = [] := if_pos hall
    rw [hpick, if_pos hnone]
    have honce : EachOnce covered group [] := by
      refine ⟨List.nodup_nil, fun key => ⟨fun h => absurd h List.not_mem_nil, fun h => ?_⟩⟩
      exact absurd (hall key h.1) h.2
    refine ⟨fun _ _ => ⟨state, rfl, ?_, by simp⟩, fun hbad => ?_⟩
    · simpa [coverage] using hstate
    · exact absurd ⟨honce, fun f hf => absurd hf List.not_mem_nil⟩ hbad
  · rw [if_neg hnone]
    have hsome : ¬ ∀ key ∈ group.1, key ∈ covered := fun hall => by
      obtain ⟨key, hkey⟩ := List.exists_mem_of_ne_nil fresh hnone
      exact ((hfresh key).mp hkey).2 (hall key ((hfresh key).mp hkey).1)
    have hlen : fresh.length = group.1.dedup.length ↔ ∀ key ∈ group.1, key ∉ covered := by
      have hsub : fresh ⊆ group.1.dedup := fun key hkey =>
        List.mem_dedup.mpr ((hfresh key).mp hkey).1
      constructor
      · intro heq key hkey
        have hperm := (List.subperm_of_subset hnd hsub).perm_of_length_le (Nat.le_of_eq heq.symm)
        exact ((hfresh key).mp (hperm.mem_iff.mpr (List.mem_dedup.mpr hkey))).2
      · intro hall
        refine ((List.perm_ext_iff_of_nodup hnd (List.nodup_dedup _)).mpr fun key => ?_).length_eq
        rw [hfresh, List.mem_dedup]
        exact ⟨And.left, fun h => ⟨h, hall key h⟩⟩
    by_cases hwhole : ∀ key ∈ group.1, key ∉ covered
    · have hpick : pick covered individual group = [group] := by
        rw [pick, if_neg hsome, if_pos hwhole]
      rw [hpick, if_pos (hlen.mpr hwhole)]
      exact take_spec order hstate hnd hfresh
    · rw [if_neg fun h => hwhole (hlen.mp h)]
      have hbuild : state.index.getD (CoverIndex.build (·.1) individual) =
          CoverIndex.build (·.1) individual := by
        rcases hstate.index with h | h <;> rw [h] <;> rfl
      have hselect : CoverIndex.select (·.1) individual (CoverIndex.build (·.1) individual) group.1
          (fun key => decide (key ∈ fresh)) = pick covered individual group := by
        rw [CoverIndex.select_build _ _ fun key hkey =>
          ((hfresh key).mp (of_decide_eq_true hkey)).1, pick, if_neg hsome, if_neg hwhole]
        simp only [hfresh]
      rw [hbuild, hselect]
      exact take_spec order ⟨hstate.indexed, Or.inr rfl⟩ hnd hfresh

/-- The loop over the groups. -/
theorem foldlM_splitGroup (order : SetOrder) (groups : List EventFragment)
    (hstate : Fits individual covered state) :
    (Covers individual covered groups →
      (∀ f ∈ directSplit individual covered groups, Publishable f) →
      ∃ state', groups.foldlM (splitGroup order individual) state = .ok state' ∧
        Fits individual (covered ++ coverage (directSplit individual covered groups)) state' ∧
        state'.additions.map (·.shape) = state.additions.map (·.shape) ++
          (directSplit individual covered groups).map fun f => (f.1, publicMessage f.2)) ∧
    (¬ (Covers individual covered groups ∧
        ∀ f ∈ directSplit individual covered groups, Publishable f) →
      ∃ e, groups.foldlM (splitGroup order individual) state = .error e ∧ e.Conflict) := by
  induction groups generalizing covered state with
  | nil =>
    refine ⟨fun _ _ => ⟨state, rfl, by simpa [directSplit, coverage] using hstate,
      by simp [directSplit]⟩, fun hbad => ?_⟩
    exact absurd ⟨trivial, fun f hf => absurd hf List.not_mem_nil⟩ hbad
  | cons group groups ih =>
    obtain ⟨hok, herror⟩ := splitGroup_spec order hstate group
    rw [List.foldlM_cons]
    unfold Covers directSplit
    generalize hpick : pick covered individual group = selected at *
    by_cases hgood : EachOnce covered group selected ∧ ∀ f ∈ selected, Publishable f
    · obtain ⟨state', hrun, hfits, hadd⟩ := hok hgood.1 hgood.2
      obtain ⟨hok', herror'⟩ := ih hfits
      rw [hrun, ok_bind]
      constructor
      · rintro ⟨-, hcovers⟩ hpub
        obtain ⟨state'', hrun', hfits', hadd'⟩ := hok' hcovers fun f hf =>
          hpub f (List.mem_append_right _ hf)
        refine ⟨state'', hrun', ?_, ?_⟩
        · rw [coverage, List.flatMap_append, ← List.append_assoc]
          exact hfits'
        · rw [hadd', hadd, List.map_append, List.append_assoc]
      · intro hbad
        refine herror' fun hh => hbad ⟨⟨hgood.1, hh.1⟩, fun f hf => ?_⟩
        exact (List.mem_append.mp hf).elim (hgood.2 f) (hh.2 f)
    · obtain ⟨e, he, hconflict⟩ := herror hgood
      rw [he]
      refine ⟨fun hcovers hpub => ?_, fun _ => ⟨e, rfl, hconflict⟩⟩
      exact absurd ⟨hcovers.1, fun f hf => hpub f (List.mem_append_left _ hf)⟩ hgood

/-- What is selected has each identifier once, and none that was covered. -/
theorem nodup_of_covers {groups : List EventFragment} (hnd : covered.Nodup)
    (h : Covers individual covered groups) :
    (covered ++ coverage (directSplit individual covered groups)).Nodup := by
  induction groups generalizing covered with
  | nil => simpa [directSplit, coverage] using hnd
  | cons group groups ih =>
    obtain ⟨honce, hcovers⟩ := h
    rw [directSplit, coverage, List.flatMap_append, ← List.append_assoc]
    refine ih (List.nodup_append.mpr ⟨hnd, honce.1, fun a ha b hb he => ?_⟩) hcovers
    exact ((honce.2 b).mp hb).2 (he ▸ ha)

variable {frozen : FrozenFragments}

theorem coverage_of_shapes {fragments : List FrozenFragment} {selected : List EventFragment}
    (h : fragments.map (·.shape) = selected.map fun f => (f.1, publicMessage f.2)) :
    fragments.flatMap (·.eventIds) = coverage selected := by
  have hh := congrArg (List.flatMap fun f : EventFragment => f.1) h
  rw [List.flatMap_map, List.flatMap_map] at hh
  exact hh

/-- The extension, as one statement about the value it starts from. -/
theorem Exact.extendHistory (h : frozen.Exact) (order : SetOrder)
    (grouped individual : List EventFragment) (ident : Nat) :
    (Covers individual frozen.eventIds grouped →
      (∀ f ∈ directSplit individual frozen.eventIds grouped, Publishable f) →
      ∃ additions tree, frozen.extendHistory order grouped individual ident =
          .ok (frozen.attach additions tree ident) ∧
        (frozen.attach additions tree ident).Exact ∧
        additions.map (·.shape) = (directSplit individual frozen.eventIds grouped).map
          fun f => (f.1, publicMessage f.2)) ∧
    (¬ (Covers individual frozen.eventIds grouped ∧
        ∀ f ∈ directSplit individual frozen.eventIds grouped, Publishable f) →
      ∃ e, frozen.extendHistory order grouped individual ident = .error e ∧ e.Conflict) := by
  have hstart : Fits individual frozen.eventIds ⟨frozen.ids, [], none⟩ := ⟨h.indexed, Or.inl rfl⟩
  obtain ⟨hok, herror⟩ := foldlM_splitGroup order grouped hstart
  unfold FrozenFragments.extendHistory
  constructor
  · intro hcovers hpub
    obtain ⟨state, hrun, hfits, hadd⟩ := hok hcovers hpub
    rw [List.map_nil, List.nil_append] at hadd
    have hids := coverage_of_shapes hadd
    rw [hrun, ok_bind]
    refine ⟨state.additions, state.covered, rfl, h.attach ident ?_ ?_, hadd⟩
    · rw [hids]
      exact hfits.indexed
    · rw [hids]
      exact nodup_of_covers h.nodup hcovers
  · intro hbad
    obtain ⟨e, he, hconflict⟩ := herror hbad
    rw [he]
    exact ⟨e, rfl, hconflict⟩

end FrozenFragments

end Yuki.Frozen

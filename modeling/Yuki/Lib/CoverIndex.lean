import Mathlib.Data.List.Sort
import Mathlib.Data.List.Nodup
import Yuki.Lib.Dict

/-! Inverted indexes: the items whose keys are all wanted are found under the
wanted keys, without a scan of the other items. -/

namespace Yuki

/-- The positions of the items under each key, and those of the items without keys. -/
structure CoverIndex (κ : Type) where
  index : Dict κ (List Nat)
  empty : List Nat

namespace CoverIndex

variable {α κ : Type} [DecidableEq κ]

def enter (keysOf : α → List κ) (built : CoverIndex κ) (entry : α × Nat) : CoverIndex κ where
  index := (keysOf entry.1).foldl
    (fun d key => d.set key ((d.lookup key).getD [] ++ [entry.2])) built.index
  empty := if keysOf entry.1 = [] then built.empty ++ [entry.2] else built.empty

def build (keysOf : α → List κ) (items : List α) : CoverIndex κ :=
  items.zipIdx.foldl (enter keysOf) ⟨[], []⟩

/-- A position joins those collected, unless it has been seen. -/
def note (state : List Nat × List Nat) (ordinal : Nat) : List Nat × List Nat :=
  if ordinal ∈ state.2 then state else (state.1 ++ [ordinal], ordinal :: state.2)

/-- The positions without keys, then those under the wanted keys. -/
def gather (built : CoverIndex κ) (keys : List κ) (wanted : κ → Bool) : List Nat :=
  (keys.foldl (fun state key =>
    if wanted key then ((built.index.lookup key).getD []).foldl note state else state)
    (built.empty, built.empty)).1

/-- Sort only what is out of order. -/
def inOrder (positions : List Nat) : List Nat :=
  if positions.IsChain (· ≤ ·) then positions else positions.mergeSort

def select (keysOf : α → List κ) (items : List α) (built : CoverIndex κ) (keys : List κ)
    (wanted : κ → Bool) : List α :=
  (inOrder (built.gather keys wanted)).filterMap fun ordinal =>
    items[ordinal]?.filter fun item => (keysOf item).all wanted

variable {keysOf : α → List κ} {items : List α} {built : CoverIndex κ} {keys : List κ}
  {wanted : κ → Bool}

/-! What the index holds. -/

theorem mem_lookup_foldl_set (ks : List κ) (d : Dict κ (List Nat)) (n o : Nat) (key : κ) :
    o ∈ ((ks.foldl (fun d key => d.set key ((d.lookup key).getD [] ++ [n])) d).lookup key).getD [] ↔
      o ∈ (d.lookup key).getD [] ∨ (o = n ∧ key ∈ ks) := by
  induction ks generalizing d with
  | nil => simp
  | cons k ks ih =>
    rw [List.foldl_cons, ih, Dict.lookup_set, List.mem_cons]
    by_cases hk : k = key
    · subst hk
      rw [if_pos rfl, Option.getD_some, List.mem_append, List.mem_singleton]
      tauto
    · rw [if_neg hk]
      have hk' : key ≠ k := Ne.symm hk
      tauto

theorem mem_index_foldl_enter (entries : List (α × Nat)) (built : CoverIndex κ) (o : Nat) (key : κ) :
    o ∈ ((entries.foldl (enter keysOf) built).index.lookup key).getD [] ↔
      o ∈ (built.index.lookup key).getD [] ∨ ∃ item, (item, o) ∈ entries ∧ key ∈ keysOf item := by
  induction entries generalizing built with
  | nil => simp
  | cons entry entries ih =>
    obtain ⟨item, n⟩ := entry
    rw [List.foldl_cons, ih, enter, mem_lookup_foldl_set]
    constructor
    · rintro ((h | ⟨rfl, h⟩) | ⟨other, hmem, h⟩)
      · exact Or.inl h
      · exact Or.inr ⟨item, List.mem_cons_self, h⟩
      · exact Or.inr ⟨other, List.mem_cons_of_mem _ hmem, h⟩
    · rintro (h | ⟨other, hmem, h⟩)
      · exact Or.inl (Or.inl h)
      · rcases List.mem_cons.mp hmem with he | hmem
        · cases he
          exact Or.inl (Or.inr ⟨rfl, h⟩)
        · exact Or.inr ⟨other, hmem, h⟩

theorem empty_foldl_enter (entries : List (α × Nat)) (built : CoverIndex κ) :
    (entries.foldl (enter keysOf) built).empty =
      built.empty ++ (entries.filter fun entry => keysOf entry.1 = []).map (·.2) := by
  induction entries generalizing built with
  | nil => simp
  | cons entry entries ih =>
    rw [List.foldl_cons, ih, enter]
    by_cases he : keysOf entry.1 = []
    · simp [he]
    · simp [he]

theorem mem_index_build {o : Nat} {key : κ} :
    o ∈ ((build keysOf items).index.lookup key).getD [] ↔
      ∃ item, items[o]? = some item ∧ key ∈ keysOf item := by
  rw [build, mem_index_foldl_enter]
  simp [List.mem_zipIdx_iff_getElem?]

theorem mem_empty_build {o : Nat} :
    o ∈ (build keysOf items).empty ↔ ∃ item, items[o]? = some item ∧ keysOf item = [] := by
  rw [build, empty_foldl_enter]
  simp [List.mem_zipIdx_iff_getElem?]

theorem nodup_empty_build : (build keysOf items).empty.Nodup := by
  rw [build, empty_foldl_enter, List.nil_append]
  refine List.Nodup.sublist (List.filter_sublist.map _) ?_
  rw [List.zipIdx_map_snd]
  exact List.nodup_range'

/-! What is collected for the wanted keys. -/

theorem foldl_note_spec (ordinals : List Nat) {state : List Nat × List Nat} (hnd : state.1.Nodup)
    (hseen : ∀ o, o ∈ state.2 ↔ o ∈ state.1) :
    (ordinals.foldl note state).1.Nodup ∧
      (∀ o, o ∈ (ordinals.foldl note state).2 ↔ o ∈ (ordinals.foldl note state).1) ∧
      ∀ o, o ∈ (ordinals.foldl note state).1 ↔ o ∈ state.1 ∨ o ∈ ordinals := by
  induction ordinals generalizing state with
  | nil => exact ⟨hnd, hseen, by simp⟩
  | cons n ordinals ih =>
    rw [List.foldl_cons]
    by_cases hn : n ∈ state.2
    · have hnote : note state n = state := if_pos hn
      rw [hnote]
      obtain ⟨hnd', hseen', hmem⟩ := ih hnd hseen
      refine ⟨hnd', hseen', fun o => ?_⟩
      rw [hmem, List.mem_cons]
      constructor
      · exact Or.imp_right Or.inr
      · rintro (h | rfl | h)
        · exact Or.inl h
        · exact Or.inl ((hseen o).mp hn)
        · exact Or.inr h
    · have hnote : note state n = (state.1 ++ [n], n :: state.2) := if_neg hn
      rw [hnote]
      have hnew : n ∉ state.1 := fun h => hn ((hseen n).mpr h)
      obtain ⟨hnd', hseen', hmem⟩ := @ih (state.1 ++ [n], n :: state.2)
        (List.nodup_append.mpr ⟨hnd, List.nodup_singleton n, fun a ha b hb he =>
          hnew (List.mem_singleton.mp hb ▸ he ▸ ha)⟩)
        (fun o => by
          rw [List.mem_cons, List.mem_append, List.mem_singleton, hseen o]
          exact Or.comm)
      refine ⟨hnd', hseen', fun o => ?_⟩
      rw [hmem, List.mem_append, List.mem_singleton, List.mem_cons, or_assoc]

theorem foldl_gather (ix : CoverIndex κ) (keys : List κ) (state : List Nat × List Nat) :
    keys.foldl (fun state key =>
      if wanted key then ((ix.index.lookup key).getD []).foldl note state else state) state =
      ((keys.filter wanted).flatMap fun key => (ix.index.lookup key).getD []).foldl note state := by
  induction keys generalizing state with
  | nil => rfl
  | cons key keys ih =>
    rw [List.foldl_cons, ih]
    by_cases hk : wanted key = true
    · rw [if_pos hk, List.filter_cons_of_pos hk, List.flatMap_cons, List.foldl_append]
    · rw [if_neg hk, List.filter_cons_of_neg hk]

theorem gather_build (keysOf : α → List κ) (items : List α) (keys : List κ) (wanted : κ → Bool) :
    ((build keysOf items).gather keys wanted).Nodup ∧
      ∀ o, o ∈ (build keysOf items).gather keys wanted ↔ ∃ item, items[o]? = some item ∧
        (keysOf item = [] ∨ ∃ key ∈ keys, wanted key = true ∧ key ∈ keysOf item) := by
  unfold gather
  rw [foldl_gather]
  obtain ⟨hnd, -, hmem⟩ := @foldl_note_spec
    ((keys.filter wanted).flatMap fun key => ((build keysOf items).index.lookup key).getD [])
    ((build keysOf items).empty, (build keysOf items).empty) nodup_empty_build fun _ => Iff.rfl
  refine ⟨hnd, fun o => ?_⟩
  rw [hmem, mem_empty_build, List.mem_flatMap]
  constructor
  · rintro (⟨item, hitem, hempty⟩ | ⟨key, hkey, ho⟩)
    · exact ⟨item, hitem, Or.inl hempty⟩
    · obtain ⟨hkey, hwanted⟩ := List.mem_filter.mp hkey
      obtain ⟨item, hitem, hin⟩ := mem_index_build.mp ho
      exact ⟨item, hitem, Or.inr ⟨key, hkey, hwanted, hin⟩⟩
  · rintro ⟨item, hitem, hempty | ⟨key, hkey, hwanted, hin⟩⟩
    · exact Or.inl ⟨item, hitem, hempty⟩
    · exact Or.inr ⟨key, List.mem_filter.mpr ⟨hkey, hwanted⟩, mem_index_build.mpr
        ⟨item, hitem, hin⟩⟩

/-! The selection is a filter. -/

theorem perm_inOrder (positions : List Nat) : (inOrder positions).Perm positions := by
  unfold inOrder
  split
  · exact List.Perm.refl _
  · exact List.mergeSort_perm _ _

theorem sorted_inOrder (positions : List Nat) : (inOrder positions).Pairwise (· ≤ ·) := by
  unfold inOrder
  split
  · rename_i h
    exact List.isChain_iff_pairwise.mp h
  · exact List.pairwise_mergeSort' _ _

theorem range_filterMap (items : List α) (q : α → Bool) :
    ((List.range items.length).filterMap fun o => items[o]?.filter q) = items.filter q := by
  induction items with
  | nil => rfl
  | cons item items ih =>
    rw [List.length_cons, List.range_succ_eq_map, List.filterMap_cons, List.filterMap_map]
    have hrest : (List.range items.length).filterMap
        ((fun o => (item :: items)[o]?.filter q) ∘ Nat.succ) = items.filter q := by
      rw [← ih]
      rfl
    rw [hrest]
    by_cases hq : q item = true
    · simp [Option.filter, hq]
    · simp [Option.filter, hq]

/-- Positions in order that miss no item of a filter select that filter. -/
theorem filterMap_eq_filter {positions : List Nat} (hsorted : positions.Pairwise (· ≤ ·))
    (hnd : positions.Nodup) (items : List α) (q : α → Bool)
    (hin : ∀ o ∈ positions, o < items.length)
    (hall : ∀ o item, items[o]? = some item → q item = true → o ∈ positions) :
    (positions.filterMap fun o => items[o]?.filter q) = items.filter q := by
  have hrange : positions = (List.range items.length).filter (· ∈ positions) := by
    refine List.Perm.eq_of_pairwise' (r := (· ≤ ·)) hsorted ?_ ?_
    · exact List.pairwise_le_range.filter _
    · refine (List.perm_ext_iff_of_nodup hnd (List.nodup_range.filter _)).mpr fun o => ?_
      rw [List.mem_filter, List.mem_range, decide_eq_true_eq]
      exact ⟨fun h => ⟨hin o h, h⟩, And.right⟩
  rw [← range_filterMap items q, hrange, List.filterMap_filter]
  refine List.filterMap_congr fun o _ => ?_
  by_cases ho : o ∈ positions
  · simp [ho]
  · cases hitem : items[o]? with
    | none => simp
    | some item =>
      have hq : q item = false := Bool.eq_false_iff.mpr fun h => ho (hall o item hitem h)
      simp [Option.filter, hq]

theorem select_build (keysOf : α → List κ) (items : List α) {keys : List κ} {wanted : κ → Bool}
    (hkeys : ∀ key, wanted key = true → key ∈ keys) :
    select keysOf items (build keysOf items) keys wanted =
      items.filter fun item => (keysOf item).all wanted := by
  obtain ⟨hnd, hmem⟩ := gather_build keysOf items keys wanted
  have hperm := perm_inOrder ((build keysOf items).gather keys wanted)
  refine filterMap_eq_filter (sorted_inOrder _) (hperm.nodup_iff.mpr hnd) items _ ?_ ?_
  · intro o ho
    obtain ⟨item, hitem, -⟩ := (hmem o).mp (hperm.mem_iff.mp ho)
    exact (List.getElem?_eq_some_iff.mp hitem).1
  · intro o item hitem hq
    refine hperm.mem_iff.mpr ((hmem o).mpr ⟨item, hitem, ?_⟩)
    cases hk : keysOf item with
    | nil => exact Or.inl rfl
    | cons key rest =>
      have hwanted : wanted key = true :=
        List.all_eq_true.mp hq key (hk ▸ List.mem_cons_self)
      exact Or.inr ⟨key, hkeys key hwanted, hwanted, List.mem_cons_self⟩

end CoverIndex

end Yuki

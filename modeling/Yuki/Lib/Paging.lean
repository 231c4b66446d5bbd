import Mathlib.Data.List.Basic
import Mathlib.Data.List.Pairwise

/-! Reading a list page by page: each page names the offset of the next one, and
the walk ends at the last page or where a page is refused. -/

namespace Yuki

/-- A source of pages of type `π` that show entries of type `α`. -/
structure Pager (α π : Type) where
  read : Nat → π
  refused : π → Bool
  next : π → Option Nat
  shown : π → List α

namespace Pager

variable {α π : Type} {g : Pager α π} {items : List α}

inductive Ending
  | finished
  | refused (offset : Nat)

/-- Follow the offsets from one on; the pages come with theirs. -/
inductive Walk (g : Pager α π) : Nat → List (Nat × π) → Ending → Prop
  | refused {o : Nat} (h : g.refused (g.read o) = true) : Walk g o [] (.refused o)
  | last {o : Nat} (h : g.refused (g.read o) = false) (hn : g.next (g.read o) = none) :
    Walk g o [(o, g.read o)] .finished
  | more {o o' : Nat} {ps : List (Nat × π)} {e : Ending} (h : g.refused (g.read o) = false)
    (hn : g.next (g.read o) = some o') (hw : Walk g o' ps e) : Walk g o ((o, g.read o) :: ps) e

/-- Every page shows the entries from its offset on, at least one where there is one, and names
the offset after them unless they are the last. -/
def Serves (g : Pager α π) (items : List α) : Prop :=
  ∀ o, o ≤ items.length → g.refused (g.read o) = false →
    ∃ k, g.shown (g.read o) = (items.drop o).take k ∧ o + k ≤ items.length ∧
      (o < items.length → 0 < k) ∧
      g.next (g.read o) = if o + k < items.length then some (o + k) else none

/-- The walk comes to an end. -/
theorem exists_walk (h : g.Serves items) {o : Nat} (ho : o ≤ items.length) :
    ∃ ps e, g.Walk o ps e := by
  induction hn : items.length - o using Nat.strongRecOn generalizing o with
  | _ n ih =>
    cases hr : g.refused (g.read o) with
    | true => exact ⟨[], .refused o, .refused hr⟩
    | false =>
      obtain ⟨k, -, hle, hpos, hnext⟩ := h o ho hr
      by_cases hlt : o + k < items.length
      · rw [if_pos hlt] at hnext
        have hk : 0 < k := hpos (by omega)
        obtain ⟨ps, e, hw⟩ := ih (items.length - (o + k)) (by omega) hle rfl
        exact ⟨_, e, .more hr hnext hw⟩
      · rw [if_neg hlt] at hnext
        exact ⟨_, _, .last hr hnext⟩

/-- Two walks from one offset are the same. -/
theorem Walk.unique {o : Nat} {ps qs : List (Nat × π)} {e e' : Ending} (h : g.Walk o ps e)
    (h' : g.Walk o qs e') : ps = qs ∧ e = e' := by
  induction h generalizing qs with
  | refused hr =>
    cases h' with
    | refused => exact ⟨rfl, rfl⟩
    | last hr' => rw [hr] at hr'; cases hr'
    | more hr' => rw [hr] at hr'; cases hr'
  | last hr hn =>
    cases h' with
    | refused hr' => rw [hr] at hr'; cases hr'
    | last => exact ⟨rfl, rfl⟩
    | more _ hn' => rw [hn] at hn'; cases hn'
  | more hr hn _ ih =>
    cases h' with
    | refused hr' => rw [hr] at hr'; cases hr'
    | last _ hn' => rw [hn] at hn'; cases hn'
    | more _ hn' hw' =>
      obtain rfl := Option.some.inj (hn.symm.trans hn')
      obtain ⟨rfl, rfl⟩ := ih hw'
      exact ⟨rfl, rfl⟩

/-- What a walk has shown when it ends. -/
def Covers (g : Pager α π) (items : List α) (o : Nat) (ps : List (Nat × π)) : Ending → Prop
  | .finished => ps.flatMap (fun p => g.shown p.2) = items.drop o
  | .refused r => o ≤ r ∧ r ≤ items.length ∧ g.refused (g.read r) = true ∧
    ps.flatMap (fun p => g.shown p.2) = (items.drop o).take (r - o)

/-- A walk shows every entry once and in order, at offsets that increase. -/
theorem Walk.covers (hs : g.Serves items) {o : Nat} {ps : List (Nat × π)} {e : Ending}
    (h : g.Walk o ps e) (ho : o ≤ items.length) :
    (∀ p ∈ ps, o ≤ p.1 ∧ p.1 ≤ items.length ∧ p.2 = g.read p.1 ∧ g.refused p.2 = false) ∧
    (ps.map Prod.fst).Pairwise (· < ·) ∧ g.Covers items o ps e := by
  induction h with
  | refused hr => exact ⟨by simp, .nil, Nat.le_refl _, ho, hr, by simp⟩
  | @last o hr hn =>
    obtain ⟨k, hshown, hle, -, hnext⟩ := hs o ho hr
    refine ⟨by simp [ho, hr], by simp, ?_⟩
    have hend : ¬ o + k < items.length := fun hlt => by rw [if_pos hlt, hn] at hnext; cases hnext
    simp only [Covers, List.flatMap_cons, List.flatMap_nil, List.append_nil, hshown]
    exact List.take_of_length_le (by rw [List.length_drop]; omega)
  | @more o o' ps e hr hn hw ih =>
    obtain ⟨k, hshown, hle, hpos, hnext⟩ := hs o ho hr
    have hlt : o + k < items.length := by
      by_contra hge
      rw [if_neg hge, hn] at hnext
      cases hnext
    obtain rfl : o' = o + k := by
      rw [if_pos hlt, hn] at hnext
      exact Option.some.inj hnext
    have hk : 0 < k := hpos (by omega)
    obtain ⟨hmem, hpw, hcov⟩ := ih hle
    refine ⟨?_, ?_, ?_⟩
    · intro p hp
      obtain rfl | hp := List.mem_cons.1 hp
      · exact ⟨Nat.le_refl _, ho, rfl, hr⟩
      · obtain ⟨h1, h2⟩ := hmem p hp
        exact ⟨by omega, h2⟩
    · rw [List.map_cons, List.pairwise_cons]
      refine ⟨fun p hp => ?_, hpw⟩
      obtain ⟨q, hq, rfl⟩ := List.mem_map.1 hp
      have := (hmem q hq).1
      show o < q.1
      omega
    · cases e with
      | finished =>
        simp only [Covers, List.flatMap_cons, hshown] at hcov ⊢
        rw [hcov, ← List.drop_drop, List.take_append_drop]
      | refused r =>
        obtain ⟨h1, h2, h3, h4⟩ := hcov
        refine ⟨by omega, h2, h3, ?_⟩
        rw [List.flatMap_cons, hshown, h4, ← List.drop_drop]
        have hr' : r - o = k + (r - (o + k)) := by omega
        rw [hr', List.take_add]

end Pager

end Yuki

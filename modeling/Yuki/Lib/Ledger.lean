import Yuki.Lib.Forest
import Mathlib.Algebra.BigOperators.Group.Finset.Piecewise

/-! Accounting over a forest: every node counts its own usage, and a root may carry a
shared total that is opened late, from the root's own usage alone. -/

namespace Yuki

open Forest Classical

structure Ledger (κ M : Type) where
  nodes : Finset κ
  parent : κ → Option κ
  usage : κ → M
  shared : κ → Option M

namespace Ledger

variable {κ M : Type}

/-- The nodes at or below `root`. -/
noncomputable def tree (l : Ledger κ M) (root : κ) : Finset κ :=
  l.nodes.filter fun x => Above l.parent x root

theorem mem_tree {l : Ledger κ M} {r y : κ} : y ∈ l.tree r ↔ y ∈ l.nodes ∧ Above l.parent y r := by
  simp [tree]

variable [AddCommMonoid M]

/-- Every shared total is the usage of its whole tree; a tree without one has used nothing. -/
structure Conserved (l : Ledger κ M) : Prop where
  closed : ∀ x p, l.parent x = some p → x ∈ l.nodes ∧ p ∈ l.nodes
  roots : ∀ r m, l.shared r = some m → r ∈ l.nodes ∧ l.parent r = none
  total : ∀ r m, l.shared r = some m → m = ∑ x ∈ l.tree r, l.usage x
  idle : ∀ r ∈ l.nodes, l.parent r = none → l.shared r = none → ∀ x ∈ l.tree r, l.usage x = 0

theorem Conserved.mem_of_above {l : Ledger κ M} (h : l.Conserved) {y z : κ}
    (ha : Above l.parent y z) (hy : y ∈ l.nodes) : z ∈ l.nodes := by
  induction ha with
  | refl => exact hy
  | tail _ hz _ => exact (h.closed _ _ hz).2

/-- A new node without usage, below an existing one or as a root. -/
structure Adopted (l l' : Ledger κ M) (x : κ) : Prop where
  fresh : x ∉ l.nodes
  nodes : ∀ y, y ∈ l'.nodes ↔ y = x ∨ y ∈ l.nodes
  parent : ∀ y, y ≠ x → l'.parent y = l.parent y
  below : ∀ p, l'.parent x = some p → p ∈ l.nodes
  usage : ∀ y, y ≠ x → l'.usage y = l.usage y
  unused : l'.usage x = 0
  shared : l'.shared = l.shared

variable {l l' : Ledger κ M} {x root : κ} {d : M}

/-- Adoption leaves what lies above the old nodes alone. -/
theorem Adopted.above (h : l.Conserved) (ha : Adopted l l' x) {y z : κ} (hy : y ∈ l.nodes) :
    Above l'.parent y z ↔ Above l.parent y z := by
  have hne : ∀ w ∈ l.nodes, w ≠ x := fun w hw e => ha.fresh (e ▸ hw)
  constructor
  · intro hz
    induction hz with
    | refl => exact .refl
    | @tail u v _ huv ih =>
      have hu := h.mem_of_above ih hy
      exact ih.tail ((ha.parent u (hne u hu)).symm.trans huv)
  · intro hz
    refine above_congr (fun w hw => ?_) hz
    exact ha.parent w (hne w (h.mem_of_above hw hy))

variable [DecidableEq κ]

theorem Adopted.tree (h : l.Conserved) (ha : Adopted l l' x) (r : κ) :
    (l'.tree r).erase x = l.tree r := by
  ext y
  simp only [Finset.mem_erase, mem_tree, ha.nodes]
  constructor
  · rintro ⟨hne, hy | hy, hab⟩
    · exact absurd hy hne
    · exact ⟨hy, (ha.above h hy).mp hab⟩
  · rintro ⟨hy, hab⟩
    exact ⟨fun e => ha.fresh (e ▸ hy), .inr hy, (ha.above h hy).mpr hab⟩

theorem Conserved.adopt (h : l.Conserved) (ha : Adopted l l' x) : l'.Conserved where
  closed y p hp := by
    by_cases hy : y = x
    · subst hy
      exact ⟨(ha.nodes y).mpr (.inl rfl), (ha.nodes p).mpr (.inr (ha.below p hp))⟩
    · rw [ha.parent y hy] at hp
      exact ⟨(ha.nodes y).mpr (.inr (h.closed y p hp).1), (ha.nodes p).mpr (.inr (h.closed y p hp).2)⟩
  roots r m hm := by
    rw [ha.shared] at hm
    obtain ⟨hr, hp⟩ := h.roots r m hm
    exact ⟨(ha.nodes r).mpr (.inr hr), by rw [ha.parent r fun e => ha.fresh (e ▸ hr), hp]⟩
  total r m hm := by
    rw [ha.shared] at hm
    have hsum : ∑ y ∈ (l'.tree r).erase x, l'.usage y = ∑ y ∈ l'.tree r, l'.usage y :=
      Finset.sum_erase _ ha.unused
    rw [h.total r m hm, ← hsum, ha.tree h]
    refine Finset.sum_congr rfl fun y hy => (ha.usage y fun e => ?_).symm
    exact ha.fresh (e ▸ (mem_tree.mp hy).1)
  idle r hr hp hm y hy := by
    by_cases hyx : y = x
    · rw [hyx, ha.unused]
    · rw [ha.usage y hyx]
      have hy' : y ∈ l.tree r := by
        rw [← ha.tree h]
        exact Finset.mem_erase.mpr ⟨hyx, hy⟩
      rw [ha.shared] at hm
      have hrn := h.mem_of_above (mem_tree.mp hy').2 (mem_tree.mp hy').1
      rw [ha.parent r fun e => ha.fresh (e ▸ hrn)] at hp
      exact h.idle r hrn hp hm y hy'

/-- Usage `d` of one node, added to the shared total of its root as well. -/
structure Spent (l l' : Ledger κ M) (x root : κ) (d : M) : Prop where
  node : x ∈ l.nodes
  above : Above l.parent x root ∧ l.parent root = none
  nodes : l'.nodes = l.nodes
  parent : l'.parent = l.parent
  usage : ∀ y, l'.usage y = if y = x then l.usage y + d else l.usage y
  shared : ∀ r, l'.shared r = if r = root then some ((l.shared r).getD (l.usage r) + d)
    else l.shared r

/-- The usage of a tree after spending: more by `d` for the one root above the node. -/
theorem Spent.sum {rank : κ → Nat} (hr : Ranked l.parent rank) (hs : Spent l l' x root d) {r : κ}
    (hroot : l.parent r = none) :
    ∑ y ∈ l'.tree r, l'.usage y = (∑ y ∈ l.tree r, l.usage y) + if r = root then d else 0 := by
  have htree : l'.tree r = l.tree r := by
    rw [tree, tree, hs.nodes, hs.parent]
  have hmem : x ∈ l.tree r ↔ r = root := by
    rw [mem_tree]
    exact ⟨fun h => hr.root_unique h.2 hroot hs.above.1 hs.above.2,
      fun h => ⟨hs.node, h ▸ hs.above.1⟩⟩
  simp only [htree, hs.usage]
  rw [Finset.sum_congr rfl fun y _ =>
    show (if y = x then l.usage y + d else l.usage y) = l.usage y + if y = x then d else 0 by
      split <;> simp, Finset.sum_add_distrib, Finset.sum_ite_eq']
  simp only [hmem]

theorem Conserved.spend {rank : κ → Nat} (h : l.Conserved) (hr : Ranked l.parent rank)
    (hs : Spent l l' x root d) : l'.Conserved where
  closed y p hp := by
    rw [hs.parent] at hp
    rw [hs.nodes]
    exact h.closed y p hp
  roots r m hm := by
    rw [hs.nodes, hs.parent]
    rw [hs.shared] at hm
    split at hm
    · rename_i he
      exact ⟨he ▸ h.mem_of_above hs.above.1 hs.node, he ▸ hs.above.2⟩
    · exact h.roots r m hm
  total r m hm := by
    rw [hs.shared] at hm
    split at hm
    · rename_i he
      have hroot : l.parent r = none := he ▸ hs.above.2
      obtain rfl := Option.some.inj hm
      rw [hs.sum hr hroot, if_pos he]
      congr 1
      cases hsh : l.shared r with
      | some m => exact h.total r m hsh
      | none =>
        have hrn : r ∈ l.nodes := he ▸ h.mem_of_above hs.above.1 hs.node
        have hidle := h.idle r hrn hroot hsh
        rw [Finset.sum_eq_zero hidle]
        exact hidle r (mem_tree.mpr ⟨hrn, .refl⟩)
    · rename_i he
      rw [hs.sum hr (h.roots r m hm).2, if_neg he, add_zero]
      exact h.total r m hm
  idle r hrn hp hm y hy := by
    rw [hs.nodes] at hrn
    rw [hs.parent] at hp
    rw [hs.shared] at hm
    split at hm
    · simp at hm
    · rename_i he
      rw [mem_tree, hs.nodes, hs.parent] at hy
      have hyx : y ≠ x := fun e => he (hr.root_unique (e ▸ hy.2) hp hs.above.1 hs.above.2)
      rw [hs.usage, if_neg hyx]
      exact h.idle r hrn hp hm y (mem_tree.mpr hy)

end Ledger

end Yuki

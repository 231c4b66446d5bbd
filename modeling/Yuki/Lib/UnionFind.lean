import Mathlib.Logic.Relation

/-! Flat union-find: every element is a root or points at one, and a join moves
a whole class under the root of another. -/

namespace Yuki.UnionFind

variable {κ : Type}

def root (parent : κ → Option κ) (x : κ) : κ :=
  (parent x).getD x

/-- No chain is longer than one edge. -/
def Flat (parent : κ → Option κ) : Prop :=
  ∀ x y, parent x = some y → parent y = none

/-- The class of the root `s` moves under the root `t`. -/
def join [DecidableEq κ] (parent : κ → Option κ) (s t x : κ) : Option κ :=
  if x = s ∨ parent x = some s then some t else parent x

/-- The classes are the closure of the pairs joined. -/
def Closure (parent : κ → Option κ) (r : κ → κ → Prop) : Prop :=
  ∀ x y, root parent x = root parent y ↔ Relation.EqvGen r x y

variable {parent : κ → Option κ} {r : κ → κ → Prop} {s t x y : κ}

theorem root_of_none (h : parent x = none) : root parent x = x := by
  rw [root, h]
  rfl

theorem root_of_some (h : parent x = some y) : root parent x = y := by
  rw [root, h]
  rfl

theorem Flat.parent_root (hf : Flat parent) (x : κ) : parent (root parent x) = none := by
  cases h : parent x with
  | none => rwa [root_of_none h]
  | some y =>
    rw [root_of_some h]
    exact hf x y h

theorem Flat.root_root (hf : Flat parent) (x : κ) : root parent (root parent x) = root parent x :=
  root_of_none (hf.parent_root x)

/-- The members of the class of a root: the root, and what points at it. -/
theorem root_eq_iff (hs : parent s = none) : root parent x = s ↔ x = s ∨ parent x = some s := by
  cases h : parent x with
  | none =>
    rw [root_of_none h]
    simp
  | some y =>
    rw [root_of_some h]
    constructor
    · rintro rfl
      exact Or.inr rfl
    · rintro (rfl | he)
      · rw [hs] at h
        cases h
      · exact Option.some.inj he

theorem closure_of_none (h : ∀ x, parent x = none) : Closure parent fun _ _ => False := by
  intro x y
  rw [root_of_none (h x), root_of_none (h y)]
  constructor
  · rintro rfl
    exact .refl x
  · intro hr
    induction hr with
    | rel _ _ h => exact h.elim
    | refl => rfl
    | symm _ _ _ ih => exact ih.symm
    | trans _ _ _ _ _ ih ih' => exact ih.trans ih'

/-- A pair inside one class adds nothing to the closure. -/
theorem Closure.pair (hc : Closure parent r) (h : root parent x = root parent y) :
    Closure parent fun u v => r u v ∨ u = x ∧ v = y := by
  intro u v
  constructor
  · intro huv
    exact Relation.EqvGen.mono (fun _ _ hr => Or.inl hr) _ _ ((hc u v).mp huv)
  · intro huv
    induction huv with
    | rel u v hr =>
      rcases hr with hr | ⟨rfl, rfl⟩
      · exact (hc u v).mpr (.rel u v hr)
      · exact h
    | refl => rfl
    | symm _ _ _ ih => exact ih.symm
    | trans _ _ _ _ _ ih ih' => exact ih.trans ih'

section

variable [DecidableEq κ]

theorem root_join (hs : parent s = none) (x : κ) :
    root (join parent s t) x = if root parent x = s then t else root parent x := by
  unfold root join
  by_cases h : x = s ∨ parent x = some s
  · rw [if_pos h, ← root, if_pos ((root_eq_iff hs).mpr h)]
    rfl
  · rw [if_neg h, ← root, if_neg fun hr => h ((root_eq_iff hs).mp hr)]

theorem Flat.join (hf : Flat parent) (ht : parent t = none) (hne : s ≠ t) :
    Flat (join parent s t) := by
  have htop : UnionFind.join parent s t t = none := by
    unfold UnionFind.join
    rw [if_neg (by simp [ht, Ne.symm hne]), ht]
  intro x y hxy
  by_cases h : x = s ∨ parent x = some s
  · rw [UnionFind.join, if_pos h] at hxy
    obtain rfl := Option.some.inj hxy
    exact htop
  · rw [UnionFind.join, if_neg h] at hxy
    have hy := hf x y hxy
    have hys : y ≠ s := by
      rintro rfl
      exact h (Or.inr hxy)
    rw [UnionFind.join, if_neg (by simp [hy, hys]), hy]

/-- A join adds one pair to the closure. -/
theorem Closure.join (hc : Closure parent r) (hs : parent s = none) (ht : parent t = none)
    (hx : root parent x = s) (hy : root parent y = t) :
    Closure (join parent s t) fun u v => r u v ∨ u = x ∧ v = y := by
  have hroot := root_join (t := t) hs
  have hold : ∀ {u v}, root parent u = root parent v →
      root (UnionFind.join parent s t) u = root (UnionFind.join parent s t) v := by
    intro u v h
    rw [hroot, hroot, h]
  have hup : ∀ {u v}, root parent u = root parent v →
      Relation.EqvGen (fun u v => r u v ∨ u = x ∧ v = y) u v := fun h =>
    Relation.EqvGen.mono (fun _ _ hr => Or.inl hr) _ _ ((hc _ _).mp h)
  have hpair : Relation.EqvGen (fun u v => r u v ∨ u = x ∧ v = y) x y :=
    .rel _ _ (Or.inr ⟨rfl, rfl⟩)
  have htt : root parent t = t := root_of_none ht
  intro u v
  constructor
  · -- both classes are old ones, or one of them is the class of `s`
    intro h
    rw [hroot, hroot] at h
    by_cases hu : root parent u = s <;> by_cases hv : root parent v = s
    · exact hup (hu.trans hv.symm)
    · rw [if_pos hu, if_neg hv] at h
      exact ((hup (hu.trans hx.symm)).trans _ _ _ hpair).trans _ _ _ (hup (hy.trans h))
    · rw [if_neg hu, if_pos hv] at h
      exact ((hup (h.trans hy.symm)).trans _ _ _ (hpair.symm _ _)).trans _ _ _
        (hup (hx.trans hv.symm))
    · rw [if_neg hu, if_neg hv] at h
      exact hup h
  · intro h
    induction h with
    | rel u v h =>
      rcases h with h | ⟨rfl, rfl⟩
      · exact hold ((hc u v).mpr (.rel u v h))
      · rw [hroot, hroot, if_pos hx, hy]
        split <;> rfl
    | refl => rfl
    | symm _ _ _ ih => exact ih.symm
    | trans _ _ _ _ _ ih ih' => exact ih.trans ih'

end

end Yuki.UnionFind

import Mathlib.Logic.Relation
import Mathlib.Data.List.Basic

/-! Forests given by a parent function. A rank that falls along every parent
edge makes the walk towards the root finite and the root unique. -/

namespace Yuki.Forest

variable {κ : Type}

/-- One step towards the root. -/
def Up (parent : κ → Option κ) (x y : κ) : Prop :=
  parent x = some y

/-- `y` is `x` or lies above it. -/
abbrev Above (parent : κ → Option κ) : κ → κ → Prop :=
  Relation.ReflTransGen (Up parent)

def Ranked (parent : κ → Option κ) (rank : κ → Nat) : Prop :=
  ∀ x y, parent x = some y → rank y < rank x

/-- The walk from `x` towards its root, `fuel` nodes at most. -/
def climb (parent : κ → Option κ) : Nat → κ → List κ
  | 0, _ => []
  | fuel + 1, x =>
    x :: match parent x with
      | some y => climb parent fuel y
      | none => []

variable {parent : κ → Option κ} {rank : κ → Nat}

theorem above_of_mem_climb {fuel : Nat} {x y : κ} (h : y ∈ climb parent fuel x) :
    Above parent x y := by
  induction fuel generalizing x with
  | zero => simp [climb] at h
  | succ fuel ih =>
    rcases List.mem_cons.mp h with rfl | h
    · exact .refl
    · cases hp : parent x with
      | none => simp [hp] at h
      | some p =>
        simp only [hp] at h
        exact (ih h).head hp

theorem Ranked.lt_of_transGen (hr : Ranked parent rank) {x y : κ}
    (h : Relation.TransGen (Up parent) x y) : rank y < rank x := by
  induction h with
  | single h => exact hr _ _ h
  | tail _ h ih => exact Nat.lt_trans (hr _ _ h) ih

theorem Ranked.acyclic (hr : Ranked parent rank) (x : κ) :
    ¬ Relation.TransGen (Up parent) x x :=
  fun h => Nat.lt_irrefl _ (hr.lt_of_transGen h)

theorem Ranked.mem_climb (hr : Ranked parent rank) {fuel : Nat} {x y : κ}
    (hf : rank x < fuel) : y ∈ climb parent fuel x ↔ Above parent x y := by
  refine ⟨above_of_mem_climb, fun h => ?_⟩
  induction fuel generalizing x with
  | zero => omega
  | succ fuel ih =>
    rcases h.cases_head with rfl | ⟨p, hp, h⟩
    · exact List.mem_cons_self
    · have hlt := hr x p hp
      have hp' : parent x = some p := hp
      simp only [climb, hp']
      exact List.mem_cons_of_mem _ (ih (by omega) h)

/-- The walk ends at a root, and at one only. -/
theorem Ranked.exists_unique_root (hr : Ranked parent rank) (x : κ) :
    ∃! r, Above parent x r ∧ parent r = none := by
  induction hn : rank x using Nat.strongRecOn generalizing x with
  | _ n ih =>
    cases hp : parent x with
    | none =>
      refine ⟨x, ⟨.refl, hp⟩, ?_⟩
      rintro r ⟨h, -⟩
      rcases h.cases_head with rfl | ⟨p, hp', -⟩
      · rfl
      · exact absurd (hp.symm.trans hp') (by simp)
    | some p =>
      obtain ⟨r, ⟨hr₁, hr₂⟩, hu⟩ := ih (rank p) (hn ▸ hr x p hp) p rfl
      refine ⟨r, ⟨hr₁.head hp, hr₂⟩, ?_⟩
      rintro s ⟨hs, hs₂⟩
      rcases hs.cases_head with rfl | ⟨q, hq, hs⟩
      · exact absurd (hp.symm.trans hs₂) (by simp)
      · obtain rfl : p = q := Option.some.inj (hp.symm.trans hq)
        exact hu s ⟨hs, hs₂⟩

theorem Ranked.root_unique (hr : Ranked parent rank) {x r s : κ} (h : Above parent x r)
    (hr' : parent r = none) (h' : Above parent x s) (hs : parent s = none) : r = s :=
  (hr.exists_unique_root x).unique ⟨h, hr'⟩ ⟨h', hs⟩

/-- A walk with fuel enough meets one root, its last node. -/
theorem Ranked.filter_climb (hr : Ranked parent rank) {fuel : Nat} {x : κ} (hf : rank x < fuel) :
    ∃ r, (climb parent fuel x).filter (fun y => (parent y).isNone) = [r] ∧
      Above parent x r ∧ parent r = none := by
  induction fuel generalizing x with
  | zero => omega
  | succ fuel ih =>
    cases hp : parent x with
    | none => exact ⟨x, by simp [climb, hp], .refl, hp⟩
    | some p =>
      have hlt := hr x p hp
      obtain ⟨r, hfilter, ha, hroot⟩ := ih (x := p) (by omega)
      exact ⟨r, by simp [climb, hp, hfilter], ha.head hp, hroot⟩

/-- Parents that agree on the nodes above `x` give `x` the same nodes above. -/
theorem above_congr {parent' : κ → Option κ} {x y : κ}
    (h : ∀ z, Above parent x z → parent' z = parent z) (hy : Above parent x y) :
    Above parent' x y := by
  induction hy with
  | refl => exact .refl
  | @tail z y hz hzy ih => exact ih.tail ((h z hz).trans hzy)

end Yuki.Forest

import Mathlib.Logic.Relation
import Mathlib.Data.List.Basic

/-! Labelled transition systems: runs, invariants, and events that a stable
state rules out for the rest of a run. -/

namespace Yuki

variable {σ α : Type}

/-- The runs of a labelled step relation, with the labels in order. -/
inductive Run (step : σ → α → σ → Prop) : σ → List α → σ → Prop
  | nil (s : σ) : Run step s [] s
  | cons {s t u : σ} {a : α} {as : List α} : step s a t → Run step t as u → Run step s (a :: as) u

namespace Run

variable {step : σ → α → σ → Prop} {s t u : σ} {as bs : List α}

theorem single {a : α} (h : step s a t) : Run step s [a] t :=
  .cons h (.nil t)

theorem append (h : Run step s as t) (h' : Run step t bs u) : Run step s (as ++ bs) u := by
  induction h with
  | nil => exact h'
  | cons hs _ ih => exact .cons hs (ih h')

theorem mono {step' : σ → α → σ → Prop} (hstep : ∀ s a t, step s a t → step' s a t)
    (h : Run step s as t) : Run step' s as t := by
  induction h with
  | nil => exact .nil _
  | cons hs _ ih => exact .cons (hstep _ _ _ hs) ih

/-- What every step preserves holds at the end of every run. -/
theorem invariant {inv : σ → Prop} (hstep : ∀ s a t, inv s → step s a t → inv t)
    (h : Run step s as t) (hs : inv s) : inv t := by
  induction h with
  | nil => exact hs
  | cons hh _ ih => exact ih (hstep _ _ _ hs hh)

/-- A preorder that every step respects, under an invariant, relates the two ends of a run. -/
theorem rel {r : σ → σ → Prop} {inv : σ → Prop} (hrefl : ∀ s, r s s)
    (htrans : ∀ {s t u}, r s t → r t u → r s u)
    (hstep : ∀ s a t, inv s → step s a t → inv t ∧ r s t)
    (h : Run step s as t) (hs : inv s) : r s t := by
  induction h with
  | nil => exact hrefl _
  | cons hh _ ih =>
    obtain ⟨hi, hr⟩ := hstep _ _ _ hs hh
    exact htrans hr (ih hi)

/-- A run splits at every position of its labels. -/
theorem split (h : Run step s (as ++ bs) u) : ∃ t, Run step s as t ∧ Run step t bs u := by
  induction as generalizing s with
  | nil => exact ⟨s, .nil s, h⟩
  | cons a as ih =>
    cases h with
    | cons hs hr =>
      obtain ⟨t, h₁, h₂⟩ := ih hr
      exact ⟨t, .cons hs h₁, h₂⟩

/-- While a stable state lasts, no event that needs its negation occurs. -/
theorem none_of_stable {done : σ → Prop} {event : α → Bool}
    (hstable : ∀ s a t, step s a t → done s → done t)
    (hevent : ∀ s a t, step s a t → event a = true → ¬ done s)
    (h : Run step s as t) (hd : done s) : as.countP event = 0 := by
  induction h with
  | nil => rfl
  | @cons s t u a as hs _ ih =>
    have ha : ¬ event a = true := fun he => hevent _ _ _ hs he hd
    rw [List.countP_cons_of_neg ha, ih (hstable _ _ _ hs hd)]

/-- A schedule on a partial step function. -/
def play (step : σ → α → Option σ) : σ → List α → Option σ
  | s, [] => some s
  | s, a :: as => (step s a).bind fun t => play step t as

theorem of_play {step : σ → α → Option σ} (h : play step s as = some t) :
    Run (fun s a t => step s a = some t) s as t := by
  induction as generalizing s with
  | nil =>
    obtain rfl := Option.some.inj h
    exact .nil s
  | cons a as ih =>
    obtain ⟨u, hu, ht⟩ := Option.bind_eq_some_iff.mp h
    exact .cons hu (ih ht)

/-- An event that establishes a stable state and needs its negation occurs at most once. -/
theorem once {done : σ → Prop} {event : α → Bool}
    (hstable : ∀ s a t, step s a t → done s → done t)
    (hevent : ∀ s a t, step s a t → event a = true → ¬ done s ∧ done t)
    (h : Run step s as t) : as.countP event ≤ 1 := by
  induction h with
  | nil => simp
  | @cons s t u a as hs hr ih =>
    by_cases ha : event a = true
    · have hz := none_of_stable hstable (fun s a t h he => (hevent s a t h he).1) hr
        (hevent _ _ _ hs ha).2
      simp [List.countP_cons_of_pos ha, hz]
    · rw [List.countP_cons_of_neg ha]
      exact ih

end Run

end Yuki

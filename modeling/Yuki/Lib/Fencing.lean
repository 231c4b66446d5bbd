import Mathlib.Data.List.Pairwise
import Yuki.Lib.Transition

/-! Fencing tokens. A resource hands out leases under growing tokens; tokens
alone then decide that at most one lease is live, and a step that revives no
lease lets no run revive one. -/

namespace Yuki

/-- What a resource manager shows of its leases: which were issued, newest first,
and which of them the resource still honours. -/
structure Fencing (σ κ lease : Type) where
  key : lease → κ
  token : lease → Int
  issued : σ → List lease
  live : σ → lease → Prop

namespace Fencing

variable {σ κ lease α : Type} (F : Fencing σ κ lease)

/-- Among the leases of one key a newer one has a greater token. -/
def Ordered (s : σ) : Prop :=
  (F.issued s).Pairwise fun l l' => F.key l = F.key l' → F.token l' < F.token l

/-- A live lease carries the token its resource stands at. -/
def Current (s : σ) : Prop :=
  ∀ l ∈ F.issued s, ∀ l' ∈ F.issued s, F.live s l → F.live s l' → F.key l = F.key l' →
    F.token l = F.token l'

/-- One step: at most one lease is issued, above all earlier ones, and none comes back to life. -/
structure Respects (s t : σ) : Prop where
  issue : F.issued t = F.issued s ∨ ∃ l, F.issued t = l :: F.issued s ∧
    ∀ l' ∈ F.issued s, F.key l = F.key l' → F.token l' < F.token l
  fade : ∀ l ∈ F.issued s, F.live t l → F.live s l

variable {F} {s t : σ}

theorem Ordered.step (h : F.Ordered s) (hr : F.Respects s t) : F.Ordered t := by
  unfold Ordered
  rcases hr.issue with he | ⟨l, he, hl⟩
  · rw [he]
    exact h
  · rw [he, List.pairwise_cons]
    exact ⟨hl, h⟩

theorem Respects.issued_subset (hr : F.Respects s t) {l : lease} (h : l ∈ F.issued s) :
    l ∈ F.issued t := by
  rcases hr.issue with he | ⟨l', he, -⟩ <;> simp [he, h]

/-- Mutual exclusion: two live leases of one key are the same lease. -/
theorem Ordered.exclusive (h : F.Ordered s) (hc : F.Current s) {l l' : lease}
    (hl : l ∈ F.issued s) (hl' : l' ∈ F.issued s) (hv : F.live s l) (hv' : F.live s l')
    (hk : F.key l = F.key l') : l = l' := by
  have ht := hc l hl l' hl' hv hv' hk
  by_contra hne
  have hlt : (F.issued s).Pairwise fun a b => F.key a = F.key b → F.token a ≠ F.token b :=
    h.imp fun hab hkey => by have := hab hkey; omega
  have : Std.Symm fun a b => F.key a = F.key b → F.token a ≠ F.token b :=
    ⟨fun _ _ hab hkey e => hab hkey.symm e.symm⟩
  exact hlt.forall hl hl' hne hk ht

theorem Ordered.nodup (h : F.Ordered s) : (F.issued s).Nodup :=
  h.imp fun {a b} hab e => by
    subst e
    exact absurd (hab rfl) (by omega)

/-- At most one issued lease of a key is live. -/
theorem Ordered.countP_live (h : F.Ordered s) (hc : F.Current s) {p : lease → Bool} {k : κ}
    (hp : ∀ l, p l = true → F.key l = k ∧ F.live s l) : (F.issued s).countP p ≤ 1 := by
  have hnd := h.nodup
  have hmem : ∀ l ∈ F.issued s, ∀ l' ∈ F.issued s, p l = true → p l' = true → l = l' :=
    fun l hl l' hl' hpl hpl' => h.exclusive hc hl hl' (hp l hpl).2 (hp l' hpl').2
      ((hp l hpl).1.trans (hp l' hpl').1.symm)
  generalize F.issued s = ls at hnd hmem
  induction ls with
  | nil => simp
  | cons a ls ih =>
    rw [List.nodup_cons] at hnd
    by_cases ha : p a = true
    · have hz : ls.countP p = 0 := by
        refine List.countP_eq_zero.mpr fun l hl hpl => hnd.1 ?_
        rw [hmem a List.mem_cons_self l (List.mem_cons_of_mem _ hl) ha hpl]
        exact hl
      simp [List.countP_cons_of_pos ha, hz]
    · rw [List.countP_cons_of_neg ha]
      exact ih hnd.2 fun l hl l' hl' =>
        hmem l (List.mem_cons_of_mem _ hl) l' (List.mem_cons_of_mem _ hl')

variable {step : σ → α → σ → Prop} {inv : σ → Prop} {labels : List α}

/-- A dead lease stays dead on every run. -/
theorem dead_forever (hstep : ∀ s a t, inv s → step s a t → inv t ∧ F.Respects s t)
    (hr : Run step s labels t) (hs : inv s) {l : lease} (hl : l ∈ F.issued s)
    (hd : ¬ F.live s l) : ¬ F.live t l := by
  induction hr with
  | nil => exact hd
  | cons hh _ ih =>
    obtain ⟨hi, hres⟩ := hstep _ _ _ hs hh
    exact ih hi (hres.issued_subset hl) fun hv => hd (hres.fade l hl hv)

end Fencing

end Yuki

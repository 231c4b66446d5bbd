import Mathlib.Algebra.BigOperators.Group.List.Basic
import Mathlib.Data.List.Nodup

/-! Keyed tables as lists of rows. A table carries the uniqueness of its primary
key, and each statement changes it the way the corresponding SQL does. -/

namespace Yuki

variable {κ ρ : Type}

structure Table (key : ρ → κ) where
  rows : List ρ
  nodup : (rows.map key).Nodup

namespace Table

variable {key : ρ → κ}

def empty : Table key := ⟨[], List.nodup_nil⟩

/-- The row stored under a primary key. -/
def get? [DecidableEq κ] (t : Table key) (k : κ) : Option ρ :=
  t.rows.find? fun r => decide (key r = k)

/-- `UPDATE … SET … WHERE …`; the assignment may not move a row to another key. -/
def update (t : Table key) (p : ρ → Bool) (f : ρ → ρ)
    (hf : ∀ r, key (f r) = key r := by intro r; rfl) : Table key where
  rows := t.rows.map fun r => if p r then f r else r
  nodup := by
    have hk : (t.rows.map fun r => if p r then f r else r).map key = t.rows.map key := by
      rw [List.map_map]
      apply List.map_congr_left
      intro r _
      by_cases hp : p r <;> simp [hp, hf]
    rw [hk]
    exact t.nodup

/-- `DELETE … WHERE …`. -/
def delete (t : Table key) (p : ρ → Bool) : Table key where
  rows := t.rows.filter fun r => !p r
  nodup := (List.Sublist.map key List.filter_sublist).nodup t.nodup

/-- `INSERT … ON CONFLICT (primary key) DO NOTHING`. -/
def insert [DecidableEq κ] (t : Table key) (r : ρ) : Table key :=
  if h : key r ∈ t.rows.map key then t
  else ⟨t.rows ++ [r], by simpa [List.nodup_append, t.nodup] using h⟩

/-- `INSERT … ON CONFLICT (primary key) DO UPDATE SET …`. -/
def upsert [DecidableEq κ] (t : Table key) (r : ρ) (p : ρ → Bool) (f : ρ → ρ)
    (hf : ∀ r, key (f r) = key r := by intro r; rfl) : Table key :=
  if key r ∈ t.rows.map key then t.update (fun s => decide (key s = key r) && p s) f hf
  else t.insert r

theorem eq_of_rows {t t' : Table key} (h : t.rows = t'.rows) : t = t' := by
  cases t
  cases t'
  simpa using h

theorem get?_eq_some [DecidableEq κ] {t : Table key} {k : κ} {r : ρ} :
    t.get? k = some r ↔ r ∈ t.rows ∧ key r = k := by
  constructor
  · intro h
    exact ⟨List.mem_of_find?_eq_some h, by simpa using List.find?_some h⟩
  · rintro ⟨hr, rfl⟩
    obtain ⟨s, hs⟩ : ∃ s, t.get? (key r) = some s :=
      Option.isSome_iff_exists.mp (List.find?_isSome.mpr ⟨r, hr, by simp⟩)
    have hmem := List.mem_of_find?_eq_some hs
    have hkey : key s = key r := by simpa using List.find?_some hs
    rw [hs, List.inj_on_of_nodup_map t.nodup hmem hr hkey]

theorem get?_key [DecidableEq κ] {t : Table key} {k : κ} {r : ρ} (h : t.get? k = some r) :
    key r = k :=
  (get?_eq_some.mp h).2

theorem get?_mem [DecidableEq κ] {t : Table key} {k : κ} {r : ρ} (h : t.get? k = some r) :
    r ∈ t.rows :=
  (get?_eq_some.mp h).1

theorem mem_rows [DecidableEq κ] {t : Table key} {r : ρ} :
    r ∈ t.rows ↔ t.get? (key r) = some r := by
  simp [get?_eq_some]

theorem get?_eq_none [DecidableEq κ] {t : Table key} {k : κ} :
    t.get? k = none ↔ k ∉ t.rows.map key := by
  simp [get?]

/-- A key selects one row, or none. -/
theorem length_filter_key [DecidableEq κ] (t : Table key) (k : κ) :
    (t.rows.filter fun r => decide (key r = k)).length = if (t.get? k).isSome then 1 else 0 := by
  cases hg : t.get? k with
  | none =>
    have hnil : t.rows.filter (fun r => decide (key r = k)) = [] :=
      List.filter_eq_nil_iff.mpr fun r hr => by
        have hne : key r ≠ k := fun e => get?_eq_none.mp hg (List.mem_map.mpr ⟨r, hr, e⟩)
        simpa using hne
    simp [hnil]
  | some r =>
    obtain ⟨hr, rfl⟩ := get?_eq_some.mp hg
    have hcount : t.rows.countP (fun s => decide (key s = key r)) =
        (t.rows.map key).count (key r) := by
      rw [List.count, List.countP_map]
      rfl
    rw [← List.countP_eq_length_filter, hcount,
      List.count_eq_one_of_mem t.nodup (List.mem_map_of_mem hr)]
    rfl

theorem get?_isSome [DecidableEq κ] {t : Table key} {k : κ} :
    (∃ r, t.get? k = some r) ↔ k ∈ t.rows.map key := by
  simp only [get?_eq_some, List.mem_map]

@[simp] theorem get?_empty [DecidableEq κ] (k : κ) : (empty : Table key).get? k = none := rfl

@[simp] theorem rows_update (t : Table key) (p : ρ → Bool) (f : ρ → ρ)
    (hf : ∀ r, key (f r) = key r) :
    (t.update p f hf).rows = t.rows.map fun r => if p r then f r else r := rfl

@[simp] theorem keys_update (t : Table key) (p : ρ → Bool) (f : ρ → ρ)
    (hf : ∀ r, key (f r) = key r) : (t.update p f hf).rows.map key = t.rows.map key := by
  rw [rows_update, List.map_map]
  apply List.map_congr_left
  intro r _
  by_cases hp : p r <;> simp [hp, hf]

@[simp] theorem get?_update [DecidableEq κ] (t : Table key) (p : ρ → Bool) (f : ρ → ρ)
    (hf : ∀ r, key (f r) = key r) (k : κ) :
    (t.update p f hf).get? k = (t.get? k).map fun r => if p r then f r else r := by
  cases h : t.get? k with
  | none =>
    rw [get?_eq_none] at h
    simpa only [Option.map_none, get?_eq_none, keys_update] using h
  | some r =>
    obtain ⟨hr, hk⟩ := get?_eq_some.mp h
    refine get?_eq_some.mpr ⟨List.mem_map.mpr ⟨r, hr, rfl⟩, ?_⟩
    by_cases hp : p r <;> simp [hp, hf, hk]

theorem mem_insert [DecidableEq κ] {t : Table key} {r s : ρ} :
    s ∈ (t.insert r).rows ↔ s ∈ t.rows ∨ s = r ∧ key r ∉ t.rows.map key := by
  unfold insert
  split <;> simp_all

theorem keys_insert [DecidableEq κ] (t : Table key) (r : ρ) (k : κ) :
    k ∈ (t.insert r).rows.map key ↔ k ∈ t.rows.map key ∨ k = key r := by
  unfold insert
  by_cases h : key r ∈ t.rows.map key
  · rw [dif_pos h]
    exact ⟨Or.inl, fun hk => hk.elim id fun e => e ▸ h⟩
  · rw [dif_neg h]
    simp [eq_comm]

theorem get?_insert [DecidableEq κ] (t : Table key) (r : ρ) (k : κ) :
    (t.insert r).get? k = (t.get? k).or (if key r = k then some r else none) := by
  unfold insert
  by_cases h : key r ∈ t.rows.map key
  · rw [dif_pos h]
    obtain ⟨s, hs⟩ := get?_isSome.mpr h
    by_cases hk : key r = k
    · subst hk
      simp [hs]
    · cases t.get? k <;> simp [hk]
  · rw [dif_neg h]
    cases hg : t.get? k with
    | some s =>
      obtain ⟨hs, hk⟩ := get?_eq_some.mp hg
      exact get?_eq_some.mpr ⟨by simp [hs], hk⟩
    | none =>
      rw [get?] at hg ⊢
      rw [List.find?_append, hg]
      by_cases hk : key r = k <;> simp [hk]

theorem get?_insert_self [DecidableEq κ] {t : Table key} {r : ρ} (h : t.get? (key r) = none) :
    (t.insert r).get? (key r) = some r := by
  simp [get?_insert, h]

theorem get?_insert_of_some [DecidableEq κ] {t : Table key} {r s : ρ} {k : κ}
    (h : t.get? k = some s) : (t.insert r).get? k = some s := by
  simp [get?_insert, h]

@[simp] theorem get?_delete [DecidableEq κ] (t : Table key) (p : ρ → Bool) (k : κ) :
    (t.delete p).get? k = (t.get? k).filter fun r => !p r := by
  cases h : t.get? k with
  | none =>
    rw [get?_eq_none] at h
    refine get?_eq_none.mpr fun hk => h ?_
    obtain ⟨r, hr, rfl⟩ := List.mem_map.mp hk
    exact List.mem_map.mpr ⟨r, List.mem_of_mem_filter hr, rfl⟩
  | some r =>
    obtain ⟨hr, rfl⟩ := get?_eq_some.mp h
    cases hp : p r with
    | false =>
      rw [Option.filter_some, hp]
      exact get?_eq_some.mpr ⟨List.mem_filter.mpr ⟨hr, by simp [hp]⟩, rfl⟩
    | true =>
      simp only [Option.filter, hp, Bool.not_true]
      refine get?_eq_none.mpr fun hk => ?_
      obtain ⟨s, hs, hks⟩ := List.mem_map.mp hk
      obtain ⟨hs, hps⟩ := List.mem_filter.mp hs
      have he : s = r := List.inj_on_of_nodup_map t.nodup hs hr hks
      simp [he, hp] at hps

end Table

end Yuki

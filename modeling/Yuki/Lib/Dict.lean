import Mathlib.Data.List.Basic
import Mathlib.Data.List.Nodup

/-! Dictionaries that keep their keys in the order of first insertion. -/

namespace Yuki

abbrev Dict (κ ν : Type) := List (κ × ν)

namespace Dict

variable {κ ν : Type} [DecidableEq κ]

/-- `d[k] = v`. -/
def set : Dict κ ν → κ → ν → Dict κ ν
  | [], k, v => [(k, v)]
  | (l, w) :: d, k, v => if l = k then (l, v) :: d else (l, w) :: set d k v

/-- A dictionary display: a later value for a key takes the place of an earlier one. -/
def ofList (items : List (κ × ν)) : Dict κ ν :=
  items.foldl (fun d item => set d item.1 item.2) []

def keys (d : Dict κ ν) : List κ :=
  d.map (·.1)

/-- `d.pop(k, None)`. -/
def erase (d : Dict κ ν) (k : κ) : Dict κ ν :=
  d.filter fun item => decide (item.1 ≠ k)

theorem lookup_cons (l k : κ) (w : ν) (d : Dict κ ν) :
    ((l, w) :: d).lookup k = if l = k then some w else d.lookup k := by
  by_cases h : l = k
  · simp [h]
  · have hb : (k == l) = false := by simpa using Ne.symm h
    simp [List.lookup_cons, hb, h]

theorem lookup_set (d : Dict κ ν) (k l : κ) (v : ν) :
    (set d k v).lookup l = if k = l then some v else d.lookup l := by
  induction d with
  | nil => simp [set, lookup_cons]
  | cons item d ih =>
    obtain ⟨m, w⟩ := item
    by_cases hm : m = k
    · subst hm
      by_cases hl : m = l <;> simp [set, lookup_cons, hl]
    · by_cases hl : m = l
      · subst hl
        simp [set, hm, Ne.symm hm]
      · simp [set, lookup_cons, hm, hl, ih]

theorem lookup_erase (d : Dict κ ν) (k l : κ) :
    (erase d k).lookup l = if k = l then none else d.lookup l := by
  induction d with
  | nil => simp [erase]
  | cons item d ih =>
    obtain ⟨m, w⟩ := item
    by_cases hm : m = k
    · subst hm
      by_cases hl : m = l
      · simpa [erase, hl] using ih
      · simpa [erase, lookup_cons, hl] using ih
    · have hcons : erase ((m, w) :: d) k = (m, w) :: erase d k := by simp [erase, hm]
      rw [hcons, lookup_cons, lookup_cons, ih]
      by_cases hl : m = l
      · have hk : k ≠ l := fun he => hm (hl.trans he.symm)
        simp [hl, hk]
      · simp [hl]

/-- A map over the values keeps the keys where they are. -/
theorem lookup_mapValues (d : Dict κ ν) (f : κ → ν → ν) (k : κ) :
    (d.map fun item => (item.1, f item.1 item.2)).lookup k = (d.lookup k).map (f k) := by
  induction d with
  | nil => rfl
  | cons item d ih =>
    obtain ⟨m, w⟩ := item
    rw [List.map_cons, lookup_cons, lookup_cons, ih]
    by_cases hm : m = k
    · simp [hm]
    · simp [hm]

theorem set_append_of_not_mem {d : Dict κ ν} {k : κ} (h : k ∉ keys d) (e : Dict κ ν) (v : ν) :
    set (d ++ e) k v = d ++ set e k v := by
  induction d with
  | nil => rfl
  | cons item d ih =>
    obtain ⟨m, w⟩ := item
    obtain ⟨hm, hd⟩ : k ≠ m ∧ k ∉ keys d := by simpa [keys] using h
    simp [set, hm.symm, ih hd]

theorem lookup_append_of_not_mem {d : Dict κ ν} {k : κ} (h : k ∉ keys d) (e : Dict κ ν) :
    (d ++ e).lookup k = e.lookup k := by
  induction d with
  | nil => rfl
  | cons item d ih =>
    obtain ⟨m, w⟩ := item
    obtain ⟨hm, hd⟩ : k ≠ m ∧ k ∉ keys d := by simpa [keys] using h
    rw [List.cons_append, lookup_cons, if_neg hm.symm, ih hd]

theorem set_of_not_mem {d : Dict κ ν} {k : κ} (h : k ∉ keys d) (v : ν) :
    set d k v = d ++ [(k, v)] := by
  have hh := set_append_of_not_mem h [] v
  rwa [List.append_nil] at hh

theorem foldl_set_of_nodup {d items : Dict κ ν} (h : (keys (d ++ items)).Nodup) :
    items.foldl (fun d item => set d item.1 item.2) d = d ++ items := by
  induction items generalizing d with
  | nil => simp
  | cons item items ih =>
    have hfresh : item.1 ∉ keys d := by
      simp only [keys, List.map_append, List.map_cons, List.nodup_append] at h
      intro hm
      exact h.2.2 _ hm _ (by simp) rfl
    rw [List.foldl_cons, set_of_not_mem hfresh, ih (by simpa using h)]
    simp

/-- A dictionary display without repeated keys keeps its items. -/
theorem ofList_of_nodup {items : List (κ × ν)} (h : (keys items).Nodup) : ofList items = items :=
  foldl_set_of_nodup (d := []) h

theorem lookup_of_mem {d : Dict κ ν} (hd : (keys d).Nodup) {k : κ} {v : ν} (h : (k, v) ∈ d) :
    d.lookup k = some v := by
  induction d with
  | nil => simp at h
  | cons item d ih =>
    obtain ⟨m, w⟩ := item
    obtain ⟨hm, hd'⟩ : m ∉ keys d ∧ (keys d).Nodup := by simpa [keys] using hd
    rw [lookup_cons]
    obtain heq | hmem := List.mem_cons.1 h
    · obtain ⟨rfl, rfl⟩ := Prod.mk.inj heq
      simp
    · have hne : m ≠ k := fun he => hm (he ▸ List.mem_map_of_mem hmem)
      rw [if_neg hne, ih hd' hmem]

theorem mem_of_lookup {d : Dict κ ν} {k : κ} {v : ν} (h : d.lookup k = some v) : (k, v) ∈ d := by
  induction d with
  | nil => simp at h
  | cons item d ih =>
    obtain ⟨m, w⟩ := item
    rw [lookup_cons] at h
    split at h
    · subst m
      simp_all
    · exact List.mem_cons_of_mem _ (ih h)

theorem lookup_eq_none {d : Dict κ ν} {k : κ} (h : k ∉ keys d) : d.lookup k = none := by
  induction d with
  | nil => rfl
  | cons item d ih =>
    obtain ⟨m, w⟩ := item
    obtain ⟨hm, hd⟩ : k ≠ m ∧ k ∉ keys d := by simpa [keys] using h
    rw [lookup_cons, if_neg hm.symm, ih hd]

theorem mem_keys {d : Dict κ ν} {k : κ} : k ∈ keys d ↔ ∃ v, d.lookup k = some v := by
  constructor
  · intro h
    cases hl : d.lookup k with
    | some v => exact ⟨v, rfl⟩
    | none =>
      induction d with
      | nil => simp [keys] at h
      | cons item d ih =>
        obtain ⟨m, w⟩ := item
        rw [lookup_cons] at hl
        by_cases hm : m = k
        · simp [hm] at hl
        · rw [if_neg hm] at hl
          have hk : k ∈ keys d := by simpa [keys, Ne.symm hm] using h
          exact ih hk hl
  · rintro ⟨v, h⟩
    exact List.mem_map_of_mem (mem_of_lookup h)

theorem keys_set_of_mem {d : Dict κ ν} {k : κ} (h : k ∈ keys d) (v : ν) :
    keys (set d k v) = keys d := by
  induction d with
  | nil => simp [keys] at h
  | cons item d ih =>
    obtain ⟨m, w⟩ := item
    by_cases hm : m = k
    · simp [set, hm, keys]
    · have hk : k ∈ keys d := by simpa [keys, Ne.symm hm] using h
      have hd := ih hk
      simp only [set, if_neg hm, keys, List.map_cons] at hd ⊢
      rw [hd]

theorem nodup_set {d : Dict κ ν} (hd : (keys d).Nodup) (k : κ) (v : ν) :
    (keys (set d k v)).Nodup := by
  by_cases h : k ∈ keys d
  · rwa [keys_set_of_mem h]
  · rw [set_of_not_mem h]
    have hcons : (k :: keys d).Nodup := List.nodup_cons.mpr ⟨h, hd⟩
    have hperm : (keys (d ++ [(k, v)])).Perm (k :: keys d) := by
      simp [keys]
    exact hperm.nodup_iff.mpr hcons

theorem nodup_erase {d : Dict κ ν} (hd : (keys d).Nodup) (k : κ) : (keys (erase d k)).Nodup :=
  (List.filter_sublist.map _).nodup hd

theorem mem_set {d : Dict κ ν} (hd : (keys d).Nodup) {k : κ} {v : ν} {item : κ × ν} :
    item ∈ set d k v ↔ item = (k, v) ∨ item ∈ d ∧ item.1 ≠ k := by
  obtain ⟨l, w⟩ := item
  have hiff : ∀ {e : Dict κ ν}, (keys e).Nodup → ((l, w) ∈ e ↔ e.lookup l = some w) :=
    fun he => ⟨lookup_of_mem he, mem_of_lookup⟩
  rw [hiff (nodup_set hd k v), hiff hd, lookup_set]
  by_cases hk : k = l
  · subst hk
    simp [eq_comm]
  · simp [hk, Ne.symm hk]

theorem mem_keys_set {d : Dict κ ν} {k l : κ} {v : ν} :
    l ∈ keys (set d k v) ↔ l = k ∨ l ∈ keys d := by
  rw [mem_keys, mem_keys, lookup_set]
  by_cases hk : k = l
  · simp [hk]
  · simp [hk, Ne.symm hk]

theorem mem_keys_erase {d : Dict κ ν} {k l : κ} : l ∈ keys (erase d k) ↔ l ∈ keys d ∧ l ≠ k := by
  rw [mem_keys, mem_keys, lookup_erase]
  by_cases hk : k = l
  · simp [hk]
  · simp [hk, Ne.symm hk]

end Dict

end Yuki

import Mathlib.Data.List.Basic
import Mathlib.Data.List.TakeDrop

/-! Cutting a sequence into pieces: at the matches of a pattern, into blocks of one size,
and greedily under a limit. -/

namespace Yuki.Pieces

variable {α β : Type*}

/-! A pattern answers with the length of its match at the start of a sequence. -/

/-- What stands before the first match, the match, and what follows it. -/
def search (pattern : List α → Option Nat) : List α → Option (List α × List α × List α)
  | [] => none
  | x :: xs =>
    match pattern (x :: xs) with
    | some n => some ([], (x :: xs).take n, (x :: xs).drop n)
    | none => (search pattern xs).map fun (before, found, after) => (x :: before, found, after)

/-- The pieces between the matches, and the matches themselves. -/
def split (pattern : List α → Option Nat) : Nat → List α → List (List α)
  | 0, xs => [xs]
  | fuel + 1, xs =>
    match search pattern xs with
    | none => [xs]
    | some (before, found, after) => before :: found :: split pattern fuel after

/-- Where the matches start and end. -/
def spans (pattern : List α → Option Nat) : Nat → Nat → List α → List (Nat × Nat)
  | 0, _, _ => []
  | fuel + 1, start, xs =>
    match search pattern xs with
    | none => []
    | some (before, found, after) =>
      let first := start + before.length
      (first, first + found.length) :: spans pattern fuel (first + found.length) after

-- The equations of the loops are made here, once, for all the lemmas below.
example (pattern : List α → Option Nat) (fuel : Nat) : split pattern fuel [] = [[]] := by
  cases fuel with
  | zero => rw [split]
  | succ fuel => rw [split, search]

theorem search_append {pattern : List α → Option Nat} {xs before found after : List α}
    (h : search pattern xs = some (before, found, after)) : before ++ found ++ after = xs := by
  induction xs generalizing before with
  | nil => cases h
  | cons x xs ih =>
    unfold search at h
    cases hp : pattern (x :: xs) with
    | some n =>
      rw [hp] at h
      cases h
      exact List.take_append_drop n (x :: xs)
    | none =>
      rw [hp] at h
      obtain ⟨⟨before', found', after'⟩, hs, heq⟩ := Option.map_eq_some_iff.mp h
      cases heq
      exact congrArg (x :: ·) (ih hs)

theorem flatten_split (pattern : List α → Option Nat) (fuel : Nat) (xs : List α) :
    (split pattern fuel xs).flatten = xs := by
  induction fuel generalizing xs with
  | zero => simp [split]
  | succ fuel ih =>
    unfold split
    cases hs : search pattern xs with
    | none => simp
    | some found =>
      obtain ⟨before, found, after⟩ := found
      have happend := search_append hs
      simpa [ih, List.append_assoc] using happend

theorem mem_spans {pattern : List α → Option Nat} {fuel start : Nat} {xs : List α}
    {span : Nat × Nat} (h : span ∈ spans pattern fuel start xs) :
    start ≤ span.1 ∧ span.1 ≤ span.2 ∧ span.2 ≤ start + xs.length := by
  induction fuel generalizing start xs with
  | zero => cases h
  | succ fuel ih =>
    unfold spans at h
    cases hs : search pattern xs with
    | none =>
      rw [hs] at h
      cases h
    | some match_ =>
      obtain ⟨before, found, after⟩ := match_
      have hlength := congrArg List.length (search_append hs)
      rw [List.length_append, List.length_append] at hlength
      rw [hs] at h
      rcases List.mem_cons.mp h with rfl | h
      · exact ⟨by dsimp only; omega, by dsimp only; omega, by dsimp only; omega⟩
      · have hrange := ih h
        exact ⟨by omega, hrange.2.1, by omega⟩

/-! Blocks of one size. -/

/-- `[xs[i : i + size] for i in range(0, len(xs), size)]`. -/
def blocks (size : Nat) (xs : List α) : List (List α) :=
  (List.range ((xs.length + size - 1) / size)).map fun i => (xs.drop (i * size)).take size

theorem flatten_map_range (size count : Nat) (xs : List α) :
    ((List.range count).map fun i => (xs.drop (i * size)).take size).flatten =
      xs.take (count * size) := by
  induction count with
  | zero => simp
  | succ count ih =>
    rw [List.range_succ, List.map_append, List.flatten_append, ih, Nat.succ_mul, List.take_add]
    simp

theorem flatten_blocks {size : Nat} (h : 0 < size) (xs : List α) :
    (blocks size xs).flatten = xs := by
  rw [blocks, flatten_map_range, List.take_of_length_le]
  have hdiv := Nat.lt_div_mul_add (a := xs.length + size - 1) h
  omega

theorem length_le_of_mem_blocks {size : Nat} {xs b : List α} (h : b ∈ blocks size xs) :
    b.length ≤ size := by
  obtain ⟨i, _, rfl⟩ := List.mem_map.mp h
  exact List.length_take_le size _

theorem blocks_nil {size : Nat} (h : 0 < size) : blocks size ([] : List α) = [] := by
  rw [blocks, List.length_nil, Nat.div_eq_of_lt (by omega)]
  rfl

theorem blocks_cons {size : Nat} {xs : List α} (h : 0 < size) (hne : xs ≠ []) :
    blocks size xs = xs.take size :: blocks size (xs.drop size) := by
  have hpos := List.length_pos_of_ne_nil hne
  have hcount : (xs.length + size - 1) / size = ((xs.drop size).length + size - 1) / size + 1 := by
    rw [List.length_drop]
    by_cases hle : size ≤ xs.length
    · rw [show xs.length + size - 1 = xs.length - size + size - 1 + size by omega,
        Nat.add_div_right _ h]
    · rw [show xs.length + size - 1 = xs.length - 1 + size by omega, Nat.add_div_right _ h,
        Nat.div_eq_of_lt (by omega), Nat.div_eq_of_lt (by omega)]
  rw [blocks, blocks, hcount, List.range_succ_eq_map, List.map_cons, List.map_map, Nat.zero_mul,
    List.drop_zero]
  congr 1
  refine List.map_congr_left fun i _ => ?_
  rw [Function.comp_apply, List.drop_drop, Nat.succ_mul, Nat.add_comm]

theorem two_le_length_blocks {size : Nat} {xs : List α} (h : 0 < size) (hx : size < xs.length) :
    2 ≤ (blocks size xs).length := by
  rw [blocks, List.length_map, List.length_range, Nat.le_div_iff_mul_le h]
  omega

/-! Greedy pieces. -/

/-- Items are joined while they stay within the limit; `flush` gives out what was joined, and
`big` an item that is too long by itself. -/
def greedy (limit : Nat) (flush big : List α → List (List α)) :
    List α → List (List α) → List (List α)
  | current, [] => flush current
  | current, item :: items =>
    if limit < item.length then flush current ++ big item ++ greedy limit flush big [] items
    else if current.length + item.length ≤ limit then
      greedy limit flush big (current ++ item) items
    else flush current ++ greedy limit flush big item items

variable {limit : Nat} {flush big : List α → List (List α)}

/-- What the outputs keep of their inputs, the greedy pieces keep. -/
theorem filter_greedy {p : α → Bool}
    (hflush : ∀ c, (flush c).flatten.filter p = c.filter p)
    (hbig : ∀ item, (big item).flatten.filter p = item.filter p)
    (current : List α) (items : List (List α)) :
    (greedy limit flush big current items).flatten.filter p =
      (current ++ items.flatten).filter p := by
  induction items generalizing current with
  | nil => simp [greedy, hflush]
  | cons item items ih =>
    unfold greedy
    split
    · simp [hflush, hbig, ih]
    · split
      · simp [ih]
      · simp [hflush, ih]

/-- Pieces that are divided further are those of a loop that divides what it gives out. -/
theorem flatMap_greedy (f : List α → List (List α)) (current : List α) (items : List (List α)) :
    (greedy limit flush big current items).flatMap f =
      greedy limit (fun c => (flush c).flatMap f) (fun item => (big item).flatMap f) current
        items := by
  induction items generalizing current with
  | nil => rfl
  | cons item items ih =>
    unfold greedy
    split
    · rw [List.flatMap_append, List.flatMap_append, ih]
    · split
      · exact ih (current ++ item)
      · rw [List.flatMap_append, ih]

/-- Items that fit together are given out as one. -/
theorem greedy_of_fits (current : List α) (items : List (List α))
    (h : (current ++ items.flatten).length ≤ limit) :
    greedy limit flush big current items = flush (current ++ items.flatten) := by
  induction items generalizing current with
  | nil => simp [greedy]
  | cons item items ih =>
    rw [List.flatten_cons, ← List.append_assoc] at h ⊢
    have hlength := h
    rw [List.length_append, List.length_append] at hlength
    rw [greedy, if_neg (by omega), if_pos (by omega)]
    exact ih (current ++ item) h

theorem forall_mem_greedy {P : List α → Prop} {current : List α} {items : List (List α)}
    (hflush : ∀ c, c.length ≤ limit → ∀ x ∈ flush c, P x)
    (hbig : ∀ item ∈ items, limit < item.length → ∀ x ∈ big item, P x)
    (hcurrent : current.length ≤ limit) :
    ∀ x ∈ greedy limit flush big current items, P x := by
  induction items generalizing current with
  | nil => exact hflush current hcurrent
  | cons item items ih =>
    have hrest : ∀ i ∈ items, limit < i.length → ∀ x ∈ big i, P x :=
      fun i hi => hbig i (List.mem_cons_of_mem _ hi)
    unfold greedy
    split
    · rename_i hlong
      intro x hx
      rcases List.mem_append.mp hx with hx | hx
      · rcases List.mem_append.mp hx with hx | hx
        · exact hflush current hcurrent x hx
        · exact hbig item List.mem_cons_self hlong x hx
      · exact ih hrest (Nat.zero_le _) x hx
    · rename_i hshort
      split
      · rename_i hfits
        exact ih hrest (by simpa using hfits)
      · intro x hx
        rcases List.mem_append.mp hx with hx | hx
        · exact hflush current hcurrent x hx
        · exact ih hrest (by omega) x hx

/-! Buckets. -/

/-- The items by their keys below `n`. -/
def buckets (n : Nat) (key : β → Nat) (items : List β) : List (List β) :=
  (List.range n).map fun k => items.filter fun item => key item == k

theorem buckets_map {γ : Type*} (g : γ → β) (n : Nat) (key : β → Nat) (items : List γ) :
    buckets n key (items.map g) = (buckets n (fun item => key (g item)) items).map (·.map g) := by
  rw [buckets, buckets, List.map_map]
  exact List.map_congr_left fun k _ => List.filter_map

theorem filter_lt_succ {key : β → Nat} {items : List β}
    (h : items.Pairwise fun a b => key a ≤ key b) (n : Nat) :
    items.filter (key · < n + 1) = items.filter (key · < n) ++ items.filter (key · == n) := by
  induction items with
  | nil => rfl
  | cons x xs ih =>
    obtain ⟨hx, hxs⟩ := List.pairwise_cons.mp h
    rcases Nat.lt_trichotomy (key x) n with hlt | heq | hgt
    · rw [List.filter_cons_of_pos (by simpa using Nat.lt_succ_of_lt hlt),
        List.filter_cons_of_pos (by simpa using hlt),
        List.filter_cons_of_neg (by simpa using Nat.ne_of_lt hlt), ih hxs, List.cons_append]
    · have hnone : xs.filter (key · < n) = [] := by
        refine List.filter_eq_nil_iff.mpr fun y hy => ?_
        have hle := hx y hy
        simp only [decide_eq_true_eq]
        omega
      rw [List.filter_cons_of_pos (by simp [heq]), List.filter_cons_of_neg (by simp [heq]),
        List.filter_cons_of_pos (by simp [heq]), ih hxs, hnone, List.nil_append, List.nil_append]
    · rw [List.filter_cons_of_neg (by simp only [decide_eq_true_eq]; omega),
        List.filter_cons_of_neg (by simp only [decide_eq_true_eq]; omega),
        List.filter_cons_of_neg (by simp only [beq_iff_eq]; omega), ih hxs]

theorem flatten_buckets {key : β → Nat} {items : List β} {n : Nat}
    (h : items.Pairwise fun a b => key a ≤ key b) (hn : ∀ item ∈ items, key item < n) :
    (buckets n key items).flatten = items := by
  have hbelow : ∀ m, (buckets m key items).flatten = items.filter (key · < m) := by
    intro m
    induction m with
    | zero => simp [buckets]
    | succ m ih =>
      rw [filter_lt_succ h, ← ih, buckets, List.range_succ, List.map_append, List.flatten_append]
      simp [buckets]
  rw [hbelow, List.filter_eq_self]
  exact fun item hitem => by simpa using hn item hitem

end Yuki.Pieces

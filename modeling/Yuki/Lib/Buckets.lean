import Mathlib.Algebra.BigOperators.Group.List.Basic
import Mathlib.Data.List.Induction
import Yuki.Lib.Dict

/-! Values gathered under keys and at positions, and the running sums over the
positions. -/

namespace Yuki

/-! Keys. -/

/-- `d.setdefault(key(x), []).append(x)` for every element. -/
def Dict.groupBy {α κ : Type} [DecidableEq κ] (key : α → κ) (xs : List α) : Dict κ (List α) :=
  xs.foldl (fun d x => d.set (key x) ((d.lookup (key x)).getD [] ++ [x])) []

theorem Dict.lookup_groupBy {α κ : Type} [DecidableEq κ] (key : α → κ) (xs : List α) (k : κ) :
    ((Dict.groupBy key xs).lookup k).getD [] = xs.filter fun x => key x = k := by
  unfold Dict.groupBy
  induction xs using List.reverseRecOn with
  | nil => rfl
  | append_singleton xs x ih =>
    rw [List.foldl_append, List.foldl_cons, List.foldl_nil, Dict.lookup_set, List.filter_append]
    by_cases hk : key x = k
    · rw [if_pos hk, hk, ih]
      simp [hk]
    · rw [if_neg hk, ih]
      simp [hk]

/-! Positions. -/

section Positions

variable {M : Type} [AddCommMonoid M]

/-- `costs[i] += c`. -/
def addAt (costs : List M) (i : Nat) (c : M) : List M :=
  costs.modify i (· + c)

theorem length_addAt (costs : List M) (i : Nat) (c : M) : (addAt costs i c).length = costs.length :=
  List.length_modify ..

theorem addAt_cons_zero (cost : M) (costs : List M) (c : M) :
    addAt (cost :: costs) 0 c = (cost + c) :: costs := rfl

theorem addAt_cons_succ (cost : M) (costs : List M) (i : Nat) (c : M) :
    addAt (cost :: costs) (i + 1) c = cost :: addAt costs i c := rfl

theorem sum_take_addAt {costs : List M} {i : Nat} (h : i < costs.length) (c : M) (k : Nat) :
    ((addAt costs i c).take k).sum = (costs.take k).sum + if i < k then c else 0 := by
  induction costs generalizing i k with
  | nil => exact absurd h (Nat.not_lt_zero i)
  | cons cost costs ih =>
    cases k with
    | zero => simp
    | succ k =>
      cases i with
      | zero =>
        rw [addAt_cons_zero, List.take_succ_cons, List.take_succ_cons, List.sum_cons, List.sum_cons,
          if_pos (Nat.succ_pos k)]
        exact add_right_comm cost c _
      | succ i =>
        rw [addAt_cons_succ, List.take_succ_cons, List.take_succ_cons, List.sum_cons, List.sum_cons,
          ih (Nat.lt_of_succ_lt_succ h), add_assoc]
        simp only [Nat.add_lt_add_iff_right]

theorem sum_drop_addAt {costs : List M} {i : Nat} (h : i < costs.length) (c : M) (k : Nat) :
    ((addAt costs i c).drop k).sum = (costs.drop k).sum + if k ≤ i then c else 0 := by
  induction costs generalizing i k with
  | nil => exact absurd h (Nat.not_lt_zero i)
  | cons cost costs ih =>
    cases k with
    | zero =>
      have htake := sum_take_addAt h c (cost :: costs).length
      rw [List.take_length, if_pos h, ← length_addAt (cost :: costs) i c, List.take_length] at htake
      rw [List.drop_zero, List.drop_zero, if_pos (Nat.zero_le i)]
      exact htake
    | succ k =>
      cases i with
      | zero =>
        rw [addAt_cons_zero, List.drop_succ_cons, List.drop_succ_cons,
          if_neg (Nat.not_succ_le_zero k), add_zero]
      | succ i =>
        rw [addAt_cons_succ, List.drop_succ_cons, List.drop_succ_cons,
          ih (Nat.lt_of_succ_lt_succ h)]
        simp only [Nat.add_le_add_iff_right]

/-- What was added at the positions, one after the other. -/
def gather (n : Nat) (items : List (Nat × M)) : List M :=
  items.foldl (fun costs item => addAt costs item.1 item.2) (List.replicate n 0)

theorem length_gather (n : Nat) (items : List (Nat × M)) : (gather n items).length = n := by
  unfold gather
  induction items using List.reverseRecOn with
  | nil => exact List.length_replicate
  | append_singleton items item ih =>
    rw [List.foldl_append, List.foldl_cons, List.foldl_nil, length_addAt, ih]

theorem gather_snoc (n : Nat) (items : List (Nat × M)) (item : Nat × M) :
    gather n (items ++ [item]) = addAt (gather n items) item.1 item.2 := by
  rw [gather, List.foldl_append]
  rfl

/-- The sum over the items that a test selects. -/
def sumWhere (p : Nat → Prop) [DecidablePred p] (items : List (Nat × M)) : M :=
  ((items.filter fun item => p item.1).map (·.2)).sum

theorem sumWhere_snoc (p : Nat → Prop) [DecidablePred p] (items : List (Nat × M)) (item : Nat × M) :
    sumWhere p (items ++ [item]) = sumWhere p items + if p item.1 then item.2 else 0 := by
  unfold sumWhere
  by_cases h : p item.1
  · simp [List.filter_append, h]
  · simp [List.filter_append, h]

theorem sum_take_gather {n : Nat} {items : List (Nat × M)} (h : ∀ item ∈ items, item.1 < n)
    (k : Nat) :
    ((gather n items).take k).sum = sumWhere (· < k) items := by
  induction items using List.reverseRecOn with
  | nil => simp [gather, sumWhere, List.take_replicate]
  | append_singleton items item ih =>
    have hlast : item.1 < (gather n items).length := by
      rw [length_gather]
      exact h item (by simp)
    rw [gather_snoc, sum_take_addAt hlast, ih fun other ho => h other (by simp [ho]), sumWhere_snoc]

theorem sum_drop_gather {n : Nat} {items : List (Nat × M)} (h : ∀ item ∈ items, item.1 < n)
    (k : Nat) :
    ((gather n items).drop k).sum = sumWhere (k ≤ ·) items := by
  induction items using List.reverseRecOn with
  | nil => simp [gather, sumWhere, List.drop_replicate]
  | append_singleton items item ih =>
    have hlast : item.1 < (gather n items).length := by
      rw [length_gather]
      exact h item (by simp)
    rw [gather_snoc, sum_drop_addAt hlast, ih fun other ho => h other (by simp [ho]), sumWhere_snoc]

/-- The running sum at every position, from the front. -/
def prefixSums (running : M) : List M → List M
  | [] => []
  | cost :: costs => (running + cost) :: prefixSums (running + cost) costs

/-- The running sum at every position, from the back. -/
def suffixSums : List M → List M
  | [] => []
  | cost :: costs => ((suffixSums costs).headD 0 + cost) :: suffixSums costs

theorem getD_prefixSums {costs : List M} {k : Nat} (h : k < costs.length) (running : M) :
    (prefixSums running costs).getD k 0 = running + (costs.take (k + 1)).sum := by
  induction costs generalizing running k with
  | nil => exact absurd h (Nat.not_lt_zero k)
  | cons cost costs ih =>
    cases k with
    | zero => simp [prefixSums]
    | succ k =>
      rw [prefixSums, List.getD_cons_succ, ih (Nat.lt_of_succ_lt_succ h), List.take_succ_cons,
        List.sum_cons, add_assoc]

theorem getD_suffixSums (costs : List M) (k : Nat) :
    (suffixSums costs).getD k 0 = (costs.drop k).sum := by
  induction costs generalizing k with
  | nil => simp [suffixSums]
  | cons cost costs ih =>
    cases k with
    | zero =>
      have hhead : (suffixSums costs).headD 0 = costs.sum := by
        have hfirst := ih 0
        rw [List.drop_zero] at hfirst
        rw [← hfirst]
        cases suffixSums costs <;> rfl
      rw [suffixSums, List.getD_cons_zero, hhead, List.drop_zero, List.sum_cons, add_comm]
    | succ k => rw [suffixSums, List.getD_cons_succ, ih, List.drop_succ_cons]

theorem getD_prefixSums_gather {n : Nat} {items : List (Nat × M)} (h : ∀ item ∈ items, item.1 < n)
    {k : Nat} (hk : k < n) :
    (prefixSums 0 (gather n items)).getD k 0 = sumWhere (· < k + 1) items := by
  rw [getD_prefixSums (by rw [length_gather]; exact hk), zero_add, sum_take_gather h]

theorem getD_suffixSums_gather {n : Nat} {items : List (Nat × M)} (h : ∀ item ∈ items, item.1 < n)
    (k : Nat) : (suffixSums (gather n items)).getD k 0 = sumWhere (k ≤ ·) items := by
  rw [getD_suffixSums, sum_drop_gather h]

end Positions

end Yuki

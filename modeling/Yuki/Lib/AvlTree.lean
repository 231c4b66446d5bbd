import Mathlib.Data.List.Nodup
import Mathlib.Order.Lattice

/-! Persistent AVL sets: nodes remember their height and size, and an insertion
rotates at most once on the way back up. -/

namespace Yuki

inductive AvlTree (κ : Type)
  | nil
  | node (key : κ) (left right : AvlTree κ) (height size : Nat)
deriving DecidableEq, Repr

namespace AvlTree

variable {κ : Type}

def height : AvlTree κ → Nat
  | .nil => 0
  | .node _ _ _ h _ => h

def size : AvlTree κ → Nat
  | .nil => 0
  | .node _ _ _ _ s => s

/-- A node that remembers the height and the size of what is under it. -/
def mk (key : κ) (left right : AvlTree κ) : AvlTree κ :=
  .node key left right (1 + max left.height right.height) (1 + left.size + right.size)

/-- The keys in order. -/
def keys : AvlTree κ → List κ
  | .nil => []
  | .node k l r _ _ => l.keys ++ k :: r.keys

/-- A left subtree that leans to the right is rotated before it is lifted. -/
def leanLeft : AvlTree κ → AvlTree κ
  | .node k l (.node pk pl pr ph ps) h s =>
    if l.height < ph then mk pk (mk k l pl) pr else .node k l (.node pk pl pr ph ps) h s
  | t => t

def leanRight : AvlTree κ → AvlTree κ
  | .node k (.node pk pl pr ph ps) r h s =>
    if r.height < ph then mk pk pl (mk k pr r) else .node k (.node pk pl pr ph ps) r h s
  | t => t

def liftLeft (key : κ) (left right : AvlTree κ) : AvlTree κ :=
  match left with
  | .node k l r _ _ => mk k l (mk key r right)
  | .nil => mk key .nil right

def liftRight (key : κ) (left right : AvlTree κ) : AvlTree κ :=
  match right with
  | .node k l r _ _ => mk k (mk key left l) r
  | .nil => mk key left .nil

/-- The node of a key over two subtrees, of which one may be too high by one. -/
def balance (key : κ) (left right : AvlTree κ) : AvlTree κ :=
  if right.height + 1 < left.height then liftLeft key left.leanLeft right
  else if left.height + 1 < right.height then liftRight key left right.leanRight
  else mk key left right

-- The equations of these functions are made here, once, for all the lemmas below.
example : (nil : AvlTree κ).leanLeft.keys = [] := by
  unfold leanLeft
  split
  · rename_i h
    cases h
  · rw [keys]

example : (nil : AvlTree κ).leanRight.keys = [] := by
  unfold leanRight
  split
  · rename_i h
    cases h
  · rw [keys]

/-! What the nodes remember, and their balance. -/

/-- Heights and sizes are right, and no two siblings differ by more than one in height. -/
inductive Balanced : AvlTree κ → Prop
  | nil : Balanced .nil
  | node {k : κ} {l r : AvlTree κ} (left : Balanced l) (right : Balanced r)
      (leftLow : l.height ≤ r.height + 1) (rightLow : r.height ≤ l.height + 1) :
      Balanced (.node k l r (1 + max l.height r.height) (1 + l.size + r.size))

variable {t l r : AvlTree κ} {k x : κ}

@[simp] theorem height_nil : (nil : AvlTree κ).height = 0 := rfl

@[simp] theorem height_node {h s : Nat} : (node k l r h s).height = h := rfl

@[simp] theorem height_mk : (mk k l r).height = 1 + max l.height r.height := rfl

@[simp] theorem size_mk : (mk k l r).size = 1 + l.size + r.size := rfl

@[simp] theorem keys_mk : (mk k l r).keys = l.keys ++ k :: r.keys := rfl

theorem Balanced.size_eq (h : Balanced t) : t.size = t.keys.length := by
  induction h with
  | nil => rfl
  | node _ _ _ _ ihl ihr =>
    rw [size, keys, List.length_append, List.length_cons, ihl, ihr]
    omega

@[simp] theorem keys_leanLeft (t : AvlTree κ) : t.leanLeft.keys = t.keys := by
  unfold leanLeft
  split
  · split
    · simp [keys]
    · rfl
  · rfl

@[simp] theorem keys_leanRight (t : AvlTree κ) : t.leanRight.keys = t.keys := by
  unfold leanRight
  split
  · split
    · simp [keys]
    · rfl
  · rfl

@[simp] theorem keys_liftLeft : (liftLeft k l r).keys = l.keys ++ k :: r.keys := by
  cases l <;> simp [liftLeft, keys]

@[simp] theorem keys_liftRight : (liftRight k l r).keys = l.keys ++ k :: r.keys := by
  cases r <;> simp [liftRight, keys]

@[simp] theorem keys_balance : (balance k l r).keys = l.keys ++ k :: r.keys := by
  unfold balance
  split
  · simp
  · split <;> simp

theorem Balanced.mk (hl : Balanced l) (hr : Balanced r) (hleft : l.height ≤ r.height + 1)
    (hright : r.height ≤ l.height + 1) : Balanced (AvlTree.mk k l r) :=
  .node hl hr hleft hright

/-- One rotation or two make up for a left subtree that is too high by one. -/
theorem Balanced.liftLeft (hl : Balanced l) (hr : Balanced r) (hhigh : l.height = r.height + 2) :
    Balanced (liftLeft k l.leanLeft r) ∧ l.height ≤ (liftLeft k l.leanLeft r).height ∧
      (liftLeft k l.leanLeft r).height ≤ l.height + 1 := by
  cases hl with
  | nil => simp at hhigh
  | @node lk ll lr hll hlr hlow hlow' =>
    rw [height_node] at hhigh ⊢
    cases hlr with
    | nil =>
      change Balanced (AvlTree.mk lk ll (AvlTree.mk k .nil r)) ∧
        _ ≤ (AvlTree.mk lk ll (AvlTree.mk k .nil r)).height ∧
        (AvlTree.mk lk ll (AvlTree.mk k .nil r)).height ≤ _
      simp only [height_mk, height_nil] at hhigh hlow hlow' ⊢
      have hright : Balanced (AvlTree.mk k .nil r) :=
        .mk .nil hr (by rw [height_nil]; omega) (by rw [height_nil]; omega)
      exact ⟨.mk hll hright (by rw [height_mk, height_nil]; omega)
        (by rw [height_mk, height_nil]; omega), by omega, by omega⟩
    | @node pk pl pr hpl hpr hp hp' =>
      rw [height_node] at hhigh hlow hlow'
      by_cases hlean : ll.height < 1 + max pl.height pr.height
      · rw [height_node, leanLeft, if_pos hlean]
        have hinner : Balanced (AvlTree.mk lk ll pl) := .mk hll hpl (by omega) (by omega)
        have houter : Balanced (AvlTree.mk k pr r) := .mk hpr hr (by omega) (by omega)
        refine ⟨.mk hinner houter ?_ ?_, ?_, ?_⟩
        · rw [height_mk, height_mk]
          omega
        · rw [height_mk, height_mk]
          omega
        · rw [AvlTree.mk, AvlTree.liftLeft, height_mk, height_mk, height_mk]
          omega
        · rw [AvlTree.mk, AvlTree.liftLeft, height_mk, height_mk, height_mk]
          omega
      · rw [height_node, leanLeft, if_neg hlean]
        have houter := Balanced.mk (k := k) (.node (k := pk) hpl hpr hp hp') hr
          (by rw [height_node]; omega) (by rw [height_node]; omega)
        refine ⟨.mk hll houter ?_ ?_, ?_, ?_⟩
        · rw [height_mk, height_node]
          omega
        · rw [height_mk, height_node]
          omega
        · rw [AvlTree.liftLeft, height_mk, height_mk, height_node]
          omega
        · rw [AvlTree.liftLeft, height_mk, height_mk, height_node]
          omega

theorem Balanced.liftRight (hl : Balanced l) (hr : Balanced r) (hhigh : r.height = l.height + 2) :
    Balanced (liftRight k l r.leanRight) ∧ r.height ≤ (liftRight k l r.leanRight).height ∧
      (liftRight k l r.leanRight).height ≤ r.height + 1 := by
  cases hr with
  | nil => simp at hhigh
  | @node rk rl rr hrl hrr hlow hlow' =>
    rw [height_node] at hhigh ⊢
    cases hrl with
    | nil =>
      change Balanced (AvlTree.mk rk (AvlTree.mk k l .nil) rr) ∧
        _ ≤ (AvlTree.mk rk (AvlTree.mk k l .nil) rr).height ∧
        (AvlTree.mk rk (AvlTree.mk k l .nil) rr).height ≤ _
      simp only [height_mk, height_nil] at hhigh hlow hlow' ⊢
      have hleft : Balanced (AvlTree.mk k l .nil) :=
        .mk hl .nil (by rw [height_nil]; omega) (by rw [height_nil]; omega)
      exact ⟨.mk hleft hrr (by rw [height_mk, height_nil]; omega)
        (by rw [height_mk, height_nil]; omega), by omega, by omega⟩
    | @node pk pl pr hpl hpr hp hp' =>
      rw [height_node] at hhigh hlow hlow'
      by_cases hlean : rr.height < 1 + max pl.height pr.height
      · rw [height_node, leanRight, if_pos hlean]
        have houter : Balanced (AvlTree.mk k l pl) := .mk hl hpl (by omega) (by omega)
        have hinner : Balanced (AvlTree.mk rk pr rr) := .mk hpr hrr (by omega) (by omega)
        refine ⟨.mk houter hinner ?_ ?_, ?_, ?_⟩
        · rw [height_mk, height_mk]
          omega
        · rw [height_mk, height_mk]
          omega
        · rw [AvlTree.mk, AvlTree.liftRight, height_mk, height_mk, height_mk]
          omega
        · rw [AvlTree.mk, AvlTree.liftRight, height_mk, height_mk, height_mk]
          omega
      · rw [height_node, leanRight, if_neg hlean]
        have houter := Balanced.mk (k := k) hl (.node (k := pk) hpl hpr hp hp')
          (by rw [height_node]; omega) (by rw [height_node]; omega)
        refine ⟨.mk houter hrr ?_ ?_, ?_, ?_⟩
        · rw [height_mk, height_node]
          omega
        · rw [height_mk, height_node]
          omega
        · rw [AvlTree.liftRight, height_mk, height_mk, height_node]
          omega
        · rw [AvlTree.liftRight, height_mk, height_mk, height_node]
          omega

/-- Balancing after one subtree has grown by at most one from heights `a` and `b`. -/
theorem Balanced.balance {a b : Nat} (hl : Balanced l) (hr : Balanced r) (ha : a ≤ b + 1)
    (hb : b ≤ a + 1) (hleft : a ≤ l.height) (hright : b ≤ r.height)
    (hgrown : l.height + r.height ≤ a + b + 1) :
    Balanced (balance k l r) ∧ 1 + max a b ≤ (balance k l r).height ∧
      (balance k l r).height ≤ 2 + max a b := by
  unfold AvlTree.balance
  split
  · obtain ⟨hbal, hlow, hhigh⟩ := hl.liftLeft (k := k) hr (by omega)
    exact ⟨hbal, by omega, by omega⟩
  · split
    · obtain ⟨hbal, hlow, hhigh⟩ := hl.liftRight (k := k) hr (by omega)
      exact ⟨hbal, by omega, by omega⟩
    · refine ⟨.mk hl hr (by omega) (by omega), ?_, ?_⟩ <;> rw [height_mk] <;> omega

/-! Insertion and search. -/

variable [LinearOrder κ]

def insert (key : κ) : AvlTree κ → AvlTree κ
  | .nil => mk key .nil .nil
  | .node k l r h s =>
    if key = k then .node k l r h s
    else if key < k then balance k (l.insert key) r
    else balance k l (r.insert key)

def contains (key : κ) : AvlTree κ → Bool
  | .nil => false
  | .node k l r _ _ => if key = k then true else if key < k then l.contains key else r.contains key

def Ordered (t : AvlTree κ) : Prop :=
  t.keys.Pairwise (· < ·)

theorem Balanced.insert (h : Balanced t) (k : κ) : Balanced (t.insert k) ∧
    t.height ≤ (t.insert k).height ∧ (t.insert k).height ≤ t.height + 1 := by
  induction h with
  | nil =>
    refine ⟨.mk .nil .nil (Nat.zero_le _) (Nat.zero_le _), ?_, ?_⟩ <;> simp [AvlTree.insert]
  | @node k' l r hl hr hlow hlow' ihl ihr =>
    unfold AvlTree.insert
    split
    · exact ⟨.node hl hr hlow hlow', Nat.le_refl _, Nat.le_succ _⟩
    · split
      · obtain ⟨hbal, hge, hle⟩ := Balanced.balance (k := k') ihl.1 hr hlow hlow' ihl.2.1
          (Nat.le_refl _) (by omega)
        rw [height_node]
        exact ⟨hbal, hge, by omega⟩
      · obtain ⟨hbal, hge, hle⟩ := Balanced.balance (k := k') hl ihr.1 hlow hlow' (Nat.le_refl _)
          ihr.2.1 (by omega)
        rw [height_node]
        exact ⟨hbal, hge, by omega⟩

theorem mem_keys_insert (t : AvlTree κ) : x ∈ (t.insert k).keys ↔ x = k ∨ x ∈ t.keys := by
  induction t with
  | nil => simp [insert, keys]
  | node k' l r h s ihl ihr =>
    unfold insert
    split
    · rename_i heq
      simp only [keys, List.mem_append, List.mem_cons, heq]
      tauto
    · split
      · rw [keys_balance, keys, List.mem_append, List.mem_append, ihl]
        tauto
      · rw [keys_balance, keys, List.mem_append, List.mem_append, List.mem_cons, List.mem_cons, ihr]
        tauto

theorem Ordered.insert (h : Ordered t) (k : κ) : Ordered (t.insert k) := by
  induction t with
  | nil => simp [AvlTree.insert, Ordered, keys]
  | node k' l r _ _ ihl ihr =>
    unfold Ordered keys at h
    obtain ⟨hl, hr, hlr⟩ := List.pairwise_append.mp h
    obtain ⟨hkr, hr⟩ := List.pairwise_cons.mp hr
    unfold AvlTree.insert
    split
    · exact h
    · rename_i hne
      split
      · rename_i hlt
        unfold Ordered
        rw [keys_balance]
        refine List.pairwise_append.mpr ⟨ihl hl, List.pairwise_cons.mpr ⟨hkr, hr⟩, ?_⟩
        intro a ha b hb
        rcases (mem_keys_insert l).mp ha with rfl | ha
        · rcases List.mem_cons.mp hb with rfl | hb
          · exact hlt
          · exact lt_trans hlt (hkr b hb)
        · exact hlr a ha b hb
      · rename_i hge
        have hlt : k' < k := lt_of_le_of_ne (not_lt.mp hge) (Ne.symm hne)
        unfold Ordered
        rw [keys_balance]
        refine List.pairwise_append.mpr ⟨hl, List.pairwise_cons.mpr ⟨fun a ha => ?_, ihr hr⟩, ?_⟩
        · rcases (mem_keys_insert r).mp ha with rfl | ha
          · exact hlt
          · exact hkr a ha
        · intro a ha b hb
          have hak := hlr a ha k' List.mem_cons_self
          rcases List.mem_cons.mp hb with rfl | hb
          · exact hak
          · rcases (mem_keys_insert r).mp hb with rfl | hb
            · exact lt_trans hak hlt
            · exact hlr a ha b (List.mem_cons_of_mem _ hb)

theorem Ordered.contains (h : Ordered t) : t.contains k = true ↔ k ∈ t.keys := by
  induction t with
  | nil => simp [AvlTree.contains, keys]
  | node k' l r _ _ ihl ihr =>
    unfold Ordered keys at h
    obtain ⟨hl, hr, hlr⟩ := List.pairwise_append.mp h
    obtain ⟨hkr, hr⟩ := List.pairwise_cons.mp hr
    unfold AvlTree.contains keys
    rw [List.mem_append, List.mem_cons]
    split
    · rename_i heq
      simp [heq]
    · rename_i hne
      split
      · rename_i hlt
        rw [ihl hl]
        refine ⟨Or.inl, fun h => h.resolve_right fun h => ?_⟩
        exact absurd (hkr k (h.resolve_left hne)) (not_lt.mpr (le_of_lt hlt))
      · rename_i hge
        rw [ihr hr]
        refine ⟨fun h => Or.inr (Or.inr h), fun h => ?_⟩
        rcases h with h | h | h
        · exact absurd (hlr k h k' List.mem_cons_self) hge
        · exact absurd h hne
        · exact h

/-- The size tells whether a key was new. -/
theorem size_insert (hb : Balanced t) (ho : Ordered t) (k : κ) :
    (t.insert k).size = if k ∈ t.keys then t.size else t.size + 1 := by
  have hnd : (t.insert k).keys.Nodup := (ho.insert k).imp fun h => ne_of_lt h
  have hnd' : t.keys.Nodup := ho.imp fun h => ne_of_lt h
  rw [(hb.insert k).1.size_eq, hb.size_eq]
  split
  · rename_i hmem
    refine ((List.perm_ext_iff_of_nodup hnd hnd').mpr fun x => ?_).length_eq
    rw [mem_keys_insert]
    exact ⟨fun h => h.elim (fun he => he ▸ hmem) id, Or.inr⟩
  · rename_i hmem
    have hperm : (t.insert k).keys.Perm (k :: t.keys) :=
      (List.perm_ext_iff_of_nodup hnd (List.nodup_cons.mpr ⟨hmem, hnd'⟩)).mpr fun x => by
        rw [mem_keys_insert, List.mem_cons]
    rw [hperm.length_eq, List.length_cons]

end AvlTree

end Yuki

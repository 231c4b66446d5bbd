import Mathlib.Algebra.Group.Int.Defs
import Yuki.Lib.JsonText

/-! Sorting the members of objects, and the equalities that do not see their order. -/

namespace Yuki.Json

/-- Insertion into members kept in ascending key order; a present key takes the new value. -/
def insertField (k : String) (v : Json) : List (String × Json) → List (String × Json)
  | [] => [(k, v)]
  | (l, w) :: fs =>
    if k < l then (k, v) :: (l, w) :: fs else if k = l then (k, v) :: fs else (l, w) :: insertField k v fs

mutual

/-- Members in ascending key order at every depth, scalars mapped by `leaf`. -/
def normalize (leaf : Json → Json) : Json → Json
  | .arr xs => .arr (normalizeItems leaf xs)
  | .obj fs => .obj (normalizeFields leaf fs)
  | j => leaf j

def normalizeItems (leaf : Json → Json) : List Json → List Json
  | [] => []
  | x :: xs => normalize leaf x :: normalizeItems leaf xs

def normalizeFields (leaf : Json → Json) : List (String × Json) → List (String × Json)
  | [] => []
  | (k, v) :: fs => insertField k (normalize leaf v) (normalizeFields leaf fs)

end

/-- The value `json.dumps(…, sort_keys=True)` writes. -/
def sortKeys (j : Json) : Json :=
  j.normalize id

/-- Numbers as Python compares them: `True == 1 == 1.0`. -/
def number : Json → Json
  | .bool b => .int (if b then 1 else 0)
  | .real m e => if 0 ≤ e then .int (m * 10 ^ e.toNat) else .real m e
  | j => j

/-- Python's `==` on decoded values. -/
def pyEq (a b : Json) : Bool :=
  a.normalize number == b.normalize number

/-- Python's `==` when either side may be absent. -/
def pyEq? : Option Json → Option Json → Bool
  | some a, some b => a.pyEq b
  | none, none => true
  | _, _ => false

/-- Equality of values up to the order of members. -/
def Same (a b : Json) : Prop :=
  a.sortKeys = b.sortKeys

theorem Same.refl (a : Json) : Same a a := rfl

theorem Same.symm {a b : Json} (h : Same a b) : Same b a := Eq.symm h

theorem Same.trans {a b c : Json} (h : Same a b) (h' : Same b c) : Same a c := Eq.trans h h'

theorem lookup_insertField (k l : String) (v : Json) (fs : List (String × Json)) :
    (insertField k v fs).lookup l = if l = k then some v else fs.lookup l := by
  induction fs with
  | nil => simp [insertField, lookup_cons]
  | cons f fs ih =>
    obtain ⟨m, w⟩ := f
    by_cases hlt : k < m
    · simp [insertField, hlt, lookup_cons]
    · by_cases he : k = m
      · subst he
        by_cases h : l = k <;> simp [insertField, lookup_cons, h]
      · by_cases h : l = m
        · subst h
          have hne : l ≠ k := fun e => he e.symm
          simp [insertField, hlt, he, hne]
        · simp [insertField, hlt, he, lookup_cons, h, ih]

theorem lookup_normalizeFields (leaf : Json → Json) (l : String) (fs : List (String × Json)) :
    (normalizeFields leaf fs).lookup l = (fs.lookup l).map (normalize leaf) := by
  induction fs with
  | nil => rfl
  | cons f fs ih =>
    obtain ⟨k, v⟩ := f
    rw [normalizeFields, lookup_insertField, lookup_cons, ih]
    by_cases h : l = k <;> simp [h]

/-- Strictly ascending keys. -/
def Sorted (fs : List (String × Json)) : Prop :=
  fs.Pairwise fun a b => a.1 < b.1

theorem mem_insertField {k : String} {v : Json} {fs : List (String × Json)} {f : String × Json}
    (h : f ∈ insertField k v fs) : f = (k, v) ∨ f ∈ fs := by
  induction fs with
  | nil => simpa [insertField] using h
  | cons g fs ih =>
    obtain ⟨m, w⟩ := g
    unfold insertField at h
    split at h
    · simpa using h
    · split at h
      · rcases List.mem_cons.mp h with h | h
        · exact .inl h
        · exact .inr (List.mem_cons_of_mem _ h)
      · rcases List.mem_cons.mp h with h | h
        · exact .inr (h ▸ List.mem_cons_self)
        · exact (ih h).imp id (List.mem_cons_of_mem _)

theorem Sorted.insertField {k : String} {v : Json} {fs : List (String × Json)} (h : Sorted fs) :
    Sorted (insertField k v fs) := by
  induction fs with
  | nil => exact List.pairwise_singleton _ _
  | cons g fs ih =>
    obtain ⟨m, w⟩ := g
    have hp := List.pairwise_cons.mp h
    unfold Json.insertField
    split
    · rename_i hlt
      refine List.pairwise_cons.mpr ⟨?_, h⟩
      intro f hf
      rcases List.mem_cons.mp hf with rfl | hf
      · exact hlt
      · exact lt_trans hlt (hp.1 f hf)
    · split
      · rename_i he
        subst he
        exact List.pairwise_cons.mpr ⟨fun f hf => hp.1 f hf, hp.2⟩
      · rename_i hlt he
        refine List.pairwise_cons.mpr ⟨?_, ih hp.2⟩
        intro f hf
        rcases mem_insertField hf with rfl | hf
        · exact lt_of_le_of_ne (not_lt.mp hlt) fun e => he e.symm
        · exact hp.1 f hf

theorem sorted_normalizeFields (leaf : Json → Json) (fs : List (String × Json)) :
    Sorted (normalizeFields leaf fs) := by
  induction fs with
  | nil => exact List.Pairwise.nil
  | cons f fs ih => exact ih.insertField

theorem lookup_eq_none_of_lt {k : String} {fs : List (String × Json)}
    (h : ∀ f ∈ fs, k < f.1) : fs.lookup k = none := by
  induction fs with
  | nil => rfl
  | cons f fs ih =>
    obtain ⟨m, w⟩ := f
    have hne : k ≠ m := ne_of_lt (h (m, w) (by simp))
    rw [lookup_cons, if_neg hne]
    exact ih fun g hg => h g (by simp [hg])

/-- Sorted members are determined by the values they are looked up to. -/
theorem Sorted.ext {as bs : List (String × Json)} (ha : Sorted as) (hb : Sorted bs)
    (h : ∀ k, as.lookup k = bs.lookup k) : as = bs := by
  induction as generalizing bs with
  | nil =>
    cases bs with
    | nil => rfl
    | cons g bs =>
      obtain ⟨m, w⟩ := g
      have hm := h m
      simp at hm
  | cons f as ih =>
    obtain ⟨k, v⟩ := f
    have hpa := List.pairwise_cons.mp ha
    cases bs with
    | nil =>
      have hk := h k
      simp at hk
    | cons g bs =>
      obtain ⟨m, w⟩ := g
      have hpb := List.pairwise_cons.mp hb
      have hkm : k = m := by
        rcases lt_trichotomy k m with hlt | he | hlt
        · have hn : ((m, w) :: bs).lookup k = none := by
            apply lookup_eq_none_of_lt
            intro f hf
            rcases List.mem_cons.mp hf with rfl | hf
            · exact hlt
            · exact lt_trans hlt (hpb.1 f hf)
          have hk := h k
          rw [hn] at hk
          simp at hk
        · exact he
        · have hn : ((k, v) :: as).lookup m = none := by
            apply lookup_eq_none_of_lt
            intro f hf
            rcases List.mem_cons.mp hf with rfl | hf
            · exact hlt
            · exact lt_trans hlt (hpa.1 f hf)
          have hm := h m
          rw [hn] at hm
          simp at hm
      subst hkm
      have hv : v = w := by
        have hk := h k
        simpa using hk
      subst hv
      congr 1
      apply ih hpa.2 hpb.2
      intro l
      by_cases hl : l = k
      · subst hl
        rw [lookup_eq_none_of_lt hpa.1, lookup_eq_none_of_lt hpb.1]
      · have hh := h l
        rwa [lookup_cons, lookup_cons, if_neg hl, if_neg hl] at hh

/-- Two objects are equal up to order when they hold equal values under every key. -/
theorem normalize_obj_eq {leaf : Json → Json} {as bs : List (String × Json)} :
    normalize leaf (.obj as) = normalize leaf (.obj bs) ↔
      ∀ k, (as.lookup k).map (normalize leaf) = (bs.lookup k).map (normalize leaf) := by
  constructor
  · intro h k
    rw [normalize, normalize, Json.obj.injEq] at h
    rw [← lookup_normalizeFields, ← lookup_normalizeFields, h]
  · intro h
    rw [normalize, normalize, Json.obj.injEq]
    apply (sorted_normalizeFields leaf as).ext (sorted_normalizeFields leaf bs)
    intro k
    rw [lookup_normalizeFields, lookup_normalizeFields, h k]

@[simp] theorem get?_sortKeys (j : Json) (k : String) :
    j.sortKeys.get? k = (j.get? k).map sortKeys := by
  cases j with
  | obj fs => exact lookup_normalizeFields id k fs
  | _ => rfl

@[simp] theorem isObj_sortKeys (j : Json) : j.sortKeys.isObj = j.isObj := by
  cases j <;> rfl

mutual

/-- Members sorted before do not change a later normalization. -/
theorem normalize_sorted (leaf : Json → Json) : (j : Json) →
    normalize leaf (normalize id j) = normalize leaf j
  | .null => rfl
  | .bool _ => rfl
  | .int _ => rfl
  | .real _ _ => rfl
  | .str _ => rfl
  | .arr xs => by rw [normalize, normalize, normalize, normalizeItems_sorted leaf xs]
  | .obj fs => by
    rw [show normalize id (.obj fs) = .obj (normalizeFields id fs) from rfl, normalize_obj_eq]
    intro k
    rw [lookup_normalizeFields, Option.map_map]
    exact lookup_sorted leaf fs k

theorem normalizeItems_sorted (leaf : Json → Json) : (xs : List Json) →
    normalizeItems leaf (normalizeItems id xs) = normalizeItems leaf xs
  | [] => rfl
  | x :: xs => by
    rw [normalizeItems, normalizeItems, normalizeItems, normalize_sorted leaf x,
      normalizeItems_sorted leaf xs]

theorem lookup_sorted (leaf : Json → Json) : (fs : List (String × Json)) → (k : String) →
    (fs.lookup k).map (normalize leaf ∘ normalize id) = (fs.lookup k).map (normalize leaf)
  | [], _ => rfl
  | (l, v) :: fs, k => by
    rw [lookup_cons]
    split
    · simp [normalize_sorted leaf v]
    · exact lookup_sorted leaf fs k

end

@[simp] theorem sortKeys_sortKeys (j : Json) : j.sortKeys.sortKeys = j.sortKeys :=
  normalize_sorted id j

@[simp] theorem pyEq_sortKeys_left (a b : Json) : a.sortKeys.pyEq b = a.pyEq b := by
  rw [pyEq, pyEq, sortKeys, normalize_sorted]

@[simp] theorem pyEq_sortKeys_right (a b : Json) : a.pyEq b.sortKeys = a.pyEq b := by
  rw [pyEq, pyEq, sortKeys, normalize_sorted]

theorem pyEq_refl (a : Json) : a.pyEq a = true := by
  simp [pyEq]

theorem Same.pyEq {a b : Json} (h : Same a b) : a.pyEq b = true := by
  rw [← pyEq_sortKeys_left, show a.sortKeys = b.sortKeys from h, pyEq_sortKeys_left, pyEq_refl]

theorem insertField_ne_nil (k : String) (v : Json) (fs : List (String × Json)) :
    insertField k v fs ≠ [] := by
  cases fs with
  | nil => simp [insertField]
  | cons f fs =>
    obtain ⟨l, w⟩ := f
    unfold insertField
    split
    · simp
    · split <;> simp

@[simp] theorem truthy_sortKeys (j : Json) : j.sortKeys.truthy = j.truthy := by
  cases j with
  | arr xs => cases xs <;> rfl
  | obj fs =>
    cases fs with
    | nil => rfl
    | cons f fs =>
      have hh := insertField_ne_nil f.1 (normalize id f.2) (normalizeFields id fs)
      simpa [sortKeys, normalize, normalizeFields, truthy] using hh
  | _ => rfl

@[simp] theorem isStr_sortKeys (j : Json) : j.sortKeys.isStr = j.isStr := by
  cases j <;> rfl

@[simp] theorem isBool_sortKeys (j : Json) : j.sortKeys.isBool = j.isBool := by
  cases j <;> rfl

@[simp] theorem isArr_sortKeys (j : Json) : j.sortKeys.isArr = j.isArr := by
  cases j <;> rfl

@[simp] theorem sortKeys_eq_str {j : Json} {s : String} : j.sortKeys = .str s ↔ j = .str s := by
  cases j <;> simp [sortKeys, normalize]

@[simp] theorem sortKeys_eq_bool {j : Json} {b : Bool} : j.sortKeys = .bool b ↔ j = .bool b := by
  cases j <;> simp [sortKeys, normalize]

@[simp] theorem sortKeys_eq_null {j : Json} : j.sortKeys = .null ↔ j = .null := by
  cases j <;> simp [sortKeys, normalize]

@[simp] theorem get_sortKeys (j : Json) (k : String) : j.sortKeys.get k = (j.get k).sortKeys := by
  rw [get_eq, get_eq, get?_sortKeys]
  cases j.get? k <;> rfl

@[simp] theorem has_sortKeys (j : Json) (k : String) : j.sortKeys.has k = j.has k := by
  simp [has_eq]

/-! Values equal up to the order of members look the same to every reader. -/

/-- The same value under a key, up to the order of members. -/
def SameField (a b : Json) (k : String) : Prop :=
  (a.get? k).map sortKeys = (b.get? k).map sortKeys

theorem SameField.symm {a b : Json} {k : String} (h : SameField a b k) : SameField b a k :=
  Eq.symm h

theorem SameField.trans {a b c : Json} {k : String} (h : SameField a b k) (h' : SameField b c k) :
    SameField a c k :=
  Eq.trans h h'

theorem SameField.of_eq {a b : Json} {k : String} (h : a.get? k = b.get? k) : SameField a b k := by
  rw [SameField, h]

theorem sameField_sortKeys (a : Json) (k : String) : SameField a.sortKeys a k := by
  rw [SameField, get?_sortKeys]
  cases a.get? k <;> simp

theorem SameField.get {a b : Json} {k : String} (h : SameField a b k) :
    Same (a.get k) (b.get k) := by
  rw [SameField] at h
  rw [Same, get_eq, get_eq]
  cases ha : a.get? k <;> cases hb : b.get? k <;> simp_all

theorem SameField.getD {a b : Json} {k : String} (h : SameField a b k) {d d' : Json}
    (hd : Same d d') : Same (a.getD k d) (b.getD k d') := by
  rw [SameField] at h
  rw [Same, getD_eq, getD_eq]
  cases ha : a.get? k <;> cases hb : b.get? k <;> simp_all [Same]

theorem SameField.has {a b : Json} {k : String} (h : SameField a b k) : a.has k = b.has k := by
  have hh := congrArg Option.isSome h
  simpa [has_eq] using hh

theorem same_obj_iff {a b : Json} (ha : a.isObj = true) (hb : b.isObj = true) :
    Same a b ↔ ∀ k, SameField a b k := by
  cases a <;> simp [isObj] at ha
  cases b <;> simp [isObj] at hb
  exact normalize_obj_eq

theorem Same.field {a b : Json} (h : Same a b) (k : String) : SameField a b k := by
  rw [SameField, ← get?_sortKeys, ← get?_sortKeys, show a.sortKeys = b.sortKeys from h]

theorem Same.get {a b : Json} (h : Same a b) (k : String) : Same (a.get k) (b.get k) :=
  (h.field k).get

theorem Same.isObj {a b : Json} (h : Same a b) : a.isObj = b.isObj := by
  rw [← isObj_sortKeys, show a.sortKeys = b.sortKeys from h, isObj_sortKeys]

theorem Same.isStr {a b : Json} (h : Same a b) : a.isStr = b.isStr := by
  rw [← isStr_sortKeys, show a.sortKeys = b.sortKeys from h, isStr_sortKeys]

theorem Same.isBool {a b : Json} (h : Same a b) : a.isBool = b.isBool := by
  rw [← isBool_sortKeys, show a.sortKeys = b.sortKeys from h, isBool_sortKeys]

theorem Same.isArr {a b : Json} (h : Same a b) : a.isArr = b.isArr := by
  rw [← isArr_sortKeys, show a.sortKeys = b.sortKeys from h, isArr_sortKeys]

theorem Same.truthy {a b : Json} (h : Same a b) : a.truthy = b.truthy := by
  rw [← truthy_sortKeys, show a.sortKeys = b.sortKeys from h, truthy_sortKeys]

theorem Same.pyEq_left {a b : Json} (h : Same a b) (c : Json) : a.pyEq c = b.pyEq c := by
  rw [← pyEq_sortKeys_left, show a.sortKeys = b.sortKeys from h, pyEq_sortKeys_left]

theorem Same.eq_str {a b : Json} (h : Same a b) (s : String) : a = .str s ↔ b = .str s := by
  rw [← sortKeys_eq_str, show a.sortKeys = b.sortKeys from h, sortKeys_eq_str]

theorem Same.eq_bool {a b : Json} (h : Same a b) (c : Bool) : a = .bool c ↔ b = .bool c := by
  rw [← sortKeys_eq_bool, show a.sortKeys = b.sortKeys from h, sortKeys_eq_bool]

theorem Same.eq_null {a b : Json} (h : Same a b) : a = .null ↔ b = .null := by
  rw [← sortKeys_eq_null, show a.sortKeys = b.sortKeys from h, sortKeys_eq_null]

theorem Same.beq_str {a b : Json} (h : Same a b) (s : String) : (a == .str s) = (b == .str s) := by
  rw [Bool.eq_iff_iff, beq_iff_eq, beq_iff_eq, h.eq_str]

theorem Same.beq_bool {a b : Json} (h : Same a b) (c : Bool) : (a == .bool c) = (b == .bool c) := by
  rw [Bool.eq_iff_iff, beq_iff_eq, beq_iff_eq, h.eq_bool]

theorem Same.beq_null {a b : Json} (h : Same a b) : (a == .null) = (b == .null) := by
  rw [Bool.eq_iff_iff, beq_iff_eq, beq_iff_eq, h.eq_null]

theorem Same.eq_emptyObj {a b : Json} (h : Same a b) : a = .obj [] ↔ b = .obj [] := by
  have hh : ∀ j : Json, j = .obj [] ↔ j.isObj = true ∧ j.truthy = false := by
    intro j
    cases j <;> simp [Json.isObj, Json.truthy]
  rw [hh, hh, h.isObj, h.truthy]

/-- A value with nothing inside it is the only one equal to it up to order. -/
theorem Same.eq_of_scalar {a b : Json} (h : Same a b) (ho : a.isObj = false)
    (ha : a.isArr = false) : a = b := by
  have hob := h.isObj ▸ ho
  have hab := h.isArr ▸ ha
  have hs : ∀ j : Json, j.isObj = false → j.isArr = false → j.sortKeys = j := by
    intro j
    cases j <;> simp [Json.isObj, Json.isArr, sortKeys, normalize]
  rw [← hs a ho ha, ← hs b hob hab]
  exact h

theorem Same.eq_of_isStr {a b : Json} (h : Same a b) (hs : a.isStr = true) : a = b := by
  cases a <;> simp [Json.isStr] at hs
  exact h.eq_of_scalar rfl rfl

theorem SameField.set {a b : Json} {k l : String} {v w : Json} (h : SameField a b l)
    (hv : Same v w) : SameField (a.set k v) (b.set k w) l := by
  rw [SameField, get?_set, get?_set]
  split
  · exact congrArg some hv
  · exact h

theorem SameField.erase {a b : Json} {k l : String} (h : SameField a b l) :
    SameField (a.erase k) (b.erase k) l := by
  rw [SameField, get?_erase, get?_erase]
  split
  · rfl
  · exact h

end Yuki.Json

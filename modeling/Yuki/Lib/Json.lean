import Mathlib.Data.List.Basic
import Mathlib.Data.String.Basic

/-! JSON values as a program holds them. A floating number is kept as its
shortest decimal `m · 10 ^ e`, and the members of an object in text order. -/

namespace Yuki

inductive Json
  | null
  | bool (b : Bool)
  | int (n : Int)
  | real (m e : Int)
  | str (s : String)
  | arr (items : List Json)
  | obj (fields : List (String × Json))
deriving Inhabited, Repr

namespace Json

mutual

def beq : Json → Json → Bool
  | .null, .null => true
  | .bool a, .bool b => a == b
  | .int a, .int b => a == b
  | .real m e, .real m' e' => m == m' && e == e'
  | .str a, .str b => a == b
  | .arr a, .arr b => beqItems a b
  | .obj a, .obj b => beqFields a b
  | _, _ => false

def beqItems : List Json → List Json → Bool
  | [], [] => true
  | a :: as, b :: bs => beq a b && beqItems as bs
  | _, _ => false

def beqFields : List (String × Json) → List (String × Json) → Bool
  | [], [] => true
  | (k, a) :: as, (l, b) :: bs => k == l && beq a b && beqFields as bs
  | _, _ => false

end

mutual

theorem beq_iff : (a b : Json) → (beq a b = true ↔ a = b)
  | .null, b => by cases b <;> simp [beq]
  | .bool _, b => by cases b <;> simp [beq]
  | .int _, b => by cases b <;> simp [beq]
  | .real _ _, b => by cases b <;> simp [beq]
  | .str _, b => by cases b <;> simp [beq]
  | .arr as, b => by cases b <;> simp [beq, beqItems_iff as]
  | .obj as, b => by cases b <;> simp [beq, beqFields_iff as]

theorem beqItems_iff : (as bs : List Json) → (beqItems as bs = true ↔ as = bs)
  | [], bs => by cases bs <;> simp [beqItems]
  | a :: as, bs => by cases bs <;> simp [beqItems, beq_iff a, beqItems_iff as]

theorem beqFields_iff : (as bs : List (String × Json)) → (beqFields as bs = true ↔ as = bs)
  | [], bs => by cases bs <;> simp [beqFields]
  | (k, a) :: as, bs => by
    cases bs with
    | nil => simp [beqFields]
    | cons b bs => obtain ⟨l, b⟩ := b; simp [beqFields, beq_iff a, beqFields_iff as, and_assoc]

end

instance : DecidableEq Json := fun a b => decidable_of_iff _ (beq_iff a b)

/-! Dictionary access. -/

def fields : Json → List (String × Json)
  | .obj fs => fs
  | _ => []

def isObj : Json → Bool
  | .obj _ => true
  | _ => false

def isStr : Json → Bool
  | .str _ => true
  | _ => false

def isBool : Json → Bool
  | .bool _ => true
  | _ => false

def isArr : Json → Bool
  | .arr _ => true
  | _ => false

/-- `d.get(k)`, and `none` on a value that is no object. -/
def get? (j : Json) (k : String) : Option Json :=
  j.fields.lookup k

/-- `k in d`. -/
def has (j : Json) (k : String) : Bool :=
  (j.get? k).isSome

/-- `d.get(k, default)`. -/
def getD (j : Json) (k : String) (d : Json) : Json :=
  (j.get? k).getD d

/-- `d.get(k)` with a missing key read as null. -/
def get (j : Json) (k : String) : Json :=
  j.getD k .null

def setField (k : String) (v : Json) : List (String × Json) → List (String × Json)
  | [] => [(k, v)]
  | (l, w) :: fs => if l = k then (k, v) :: fs else (l, w) :: setField k v fs

/-- `d[k] = v`. -/
def set (j : Json) (k : String) (v : Json) : Json :=
  .obj (setField k v j.fields)

/-- `d` without the key `k`. -/
def erase (j : Json) (k : String) : Json :=
  .obj (j.fields.filter fun f => f.1 != k)

/-- `{**a, **b}`. -/
def merge (a b : Json) : Json :=
  .obj (a.fields.map (fun f => (f.1, (b.get? f.1).getD f.2)) ++
    b.fields.filter fun f => !a.has f.1)

/-- `bool(v)`. -/
def truthy : Json → Bool
  | .null => false
  | .bool b => b
  | .int n => n != 0
  | .real m _ => m != 0
  | .str s => s != ""
  | .arr xs => !xs.isEmpty
  | .obj fs => !fs.isEmpty

@[simp] theorem get?_obj (fs : List (String × Json)) (k : String) :
    (Json.obj fs).get? k = fs.lookup k := rfl

theorem lookup_cons (l m : String) (w : Json) (fs : List (String × Json)) :
    ((m, w) :: fs).lookup l = if l = m then some w else fs.lookup l := by
  by_cases h : l = m
  · simp [h]
  · have hb : (l == m) = false := by simpa using h
    simp [List.lookup_cons, h, hb]

theorem lookup_setField (k l : String) (v : Json) (fs : List (String × Json)) :
    (setField k v fs).lookup l = if l = k then some v else fs.lookup l := by
  induction fs with
  | nil => simp [setField, lookup_cons]
  | cons f fs ih =>
    obtain ⟨m, w⟩ := f
    by_cases hm : m = k
    · subst hm
      by_cases h : l = m <;> simp [setField, lookup_cons, h]
    · by_cases h : l = m
      · subst h
        simp [setField, hm]
      · simp [setField, lookup_cons, hm, h, ih]

@[simp] theorem get?_set (j : Json) (k l : String) (v : Json) :
    (j.set k v).get? l = if l = k then some v else j.get? l :=
  lookup_setField k l v j.fields

theorem lookup_filter (p : String → Bool) (l : String) (fs : List (String × Json)) :
    (fs.filter fun f => p f.1).lookup l = if p l then fs.lookup l else none := by
  induction fs with
  | nil => simp
  | cons f fs ih =>
    obtain ⟨m, w⟩ := f
    by_cases h : l = m
    · subst h
      by_cases hp : p l <;> simp [hp, ih]
    · by_cases hp : p m <;> simp [hp, lookup_cons, h, ih]

@[simp] theorem get?_erase (j : Json) (k l : String) :
    (j.erase k).get? l = if l = k then none else j.get? l := by
  rw [erase, get?_obj, lookup_filter (fun m => m != k)]
  by_cases hk : l = k <;> simp [hk, get?]

theorem lookup_map_getD (g : String → Option Json) (l : String) (fs : List (String × Json)) :
    (fs.map fun f => (f.1, (g f.1).getD f.2)).lookup l =
      (fs.lookup l).map fun w => (g l).getD w := by
  induction fs with
  | nil => rfl
  | cons f fs ih =>
    obtain ⟨m, w⟩ := f
    by_cases h : l = m
    · subst h
      simp
    · simp [lookup_cons, h, ih]

theorem lookup_append (l : String) (as bs : List (String × Json)) :
    (as ++ bs).lookup l = (as.lookup l).or (bs.lookup l) := by
  induction as with
  | nil => simp
  | cons f fs ih =>
    obtain ⟨m, w⟩ := f
    by_cases h : l = m
    · subst h
      simp
    · simp [lookup_cons, h, ih]

/-- The right operand of a dictionary merge wins. -/
@[simp] theorem get?_merge (a b : Json) (k : String) :
    (a.merge b).get? k = (b.get? k).or (a.get? k) := by
  have ha : a.get? k = a.fields.lookup k := rfl
  have hb : b.get? k = b.fields.lookup k := rfl
  have hh : a.has k = (a.fields.lookup k).isSome := rfl
  rw [merge, get?_obj, lookup_append, lookup_map_getD, lookup_filter (fun k => !a.has k), hh, ha, hb]
  cases a.fields.lookup k <;> cases b.fields.lookup k <;> simp

@[simp] theorem isObj_set (j : Json) (k : String) (v : Json) : (j.set k v).isObj = true := rfl

@[simp] theorem isObj_merge (a b : Json) : (a.merge b).isObj = true := rfl

theorem getD_eq (j : Json) (k : String) (d : Json) : j.getD k d = (j.get? k).getD d := rfl

theorem get_eq (j : Json) (k : String) : j.get k = (j.get? k).getD .null := rfl

theorem has_eq (j : Json) (k : String) : j.has k = (j.get? k).isSome := rfl

end Json

end Yuki

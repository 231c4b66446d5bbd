import Mathlib.Algebra.Group.Int.Defs
import Yuki.Lib.JsonText

/-! SQL conditions: three-valued truth, and SQLite's functions on JSON text. -/

namespace Yuki.Sql

/-- A truth value of a condition; `none` is NULL. -/
abbrev Truth := Option Bool

namespace Truth

def and : Truth → Truth → Truth
  | some false, _ => some false
  | _, some false => some false
  | some true, some true => some true
  | _, _ => none

def or : Truth → Truth → Truth
  | some true, _ => some true
  | _, some true => some true
  | some false, some false => some false
  | _, _ => none

def not : Truth → Truth
  | some b => some (!b)
  | none => none

/-- A `WHERE` clause selects the rows on which it is true, not those on which it is NULL. -/
def holds (t : Truth) : Bool :=
  t == some true

@[simp] theorem holds_some (b : Bool) : holds (some b) = b := by
  cases b <;> rfl

@[simp] theorem holds_none : holds none = false := rfl

@[simp] theorem holds_and (a b : Truth) : (a.and b).holds = (a.holds && b.holds) := by
  rcases a with _ | _ | _ <;> rcases b with _ | _ | _ <;> rfl

@[simp] theorem holds_or (a b : Truth) : (a.or b).holds = (a.holds || b.holds) := by
  rcases a with _ | _ | _ <;> rcases b with _ | _ | _ <;> rfl

theorem isSome_and (a b : Truth) (ha : a.isSome) (hb : b.isSome) : (a.and b).isSome := by
  rcases a with _ | _ | _ <;> rcases b with _ | _ | _ <;> simp_all [and]

theorem isSome_or (a b : Truth) (ha : a.isSome) (hb : b.isSome) : (a.or b).isSome := by
  rcases a with _ | _ | _ <;> rcases b with _ | _ | _ <;> simp_all [or]

def all : List Truth → Truth
  | [] => some true
  | t :: ts => t.and (all ts)

def any : List Truth → Truth
  | [] => some false
  | t :: ts => t.or (any ts)

@[simp] theorem holds_all (ts : List Truth) : (all ts).holds = ts.all holds := by
  induction ts with
  | nil => rfl
  | cons t ts ih => simp [all, ih]

@[simp] theorem holds_any (ts : List Truth) : (any ts).holds = ts.any holds := by
  induction ts with
  | nil => rfl
  | cons t ts ih => simp [any, ih]

theorem isSome_all {ts : List Truth} (h : ∀ t ∈ ts, t.isSome) : (all ts).isSome := by
  induction ts with
  | nil => rfl
  | cons t ts ih =>
    exact isSome_and _ _ (h t (by simp)) (ih fun u hu => h u (by simp [hu]))

end Truth

/-- A value of a column or an expression. -/
inductive Value
  | null
  | int (n : Int)
  | real (m e : Int)
  | text (s : String)
deriving DecidableEq, Repr

/-- `m · 10 ^ e = n`. -/
def realEqInt (m e n : Int) : Bool :=
  if 0 ≤ e then m * 10 ^ e.toNat == n else m == n * 10 ^ (-e).toNat

namespace Value

/-- Comparison without column affinity: numbers by value, a text never equals a number. -/
def eq : Value → Value → Truth
  | null, _ => none
  | _, null => none
  | int a, int b => some (a == b)
  | int a, real m e => some (realEqInt m e a)
  | real m e, int b => some (realEqInt m e b)
  | real m e, real m' e' => some (m == m' && e == e')
  | text a, text b => some (a == b)
  | _, _ => some false

def coalesce : Value → Value → Value
  | null, w => w
  | v, _ => v

def isIn (v : Value) (ws : List Value) : Truth :=
  Truth.any (ws.map v.eq)

def isNull : Value → Bool
  | null => true
  | _ => false

end Value

/-- The element at a member path `$.a.b`. -/
def jsonAt : Json → List String → Option Json
  | j, [] => some j
  | j, k :: ks => (j.get? k).bind fun v => jsonAt v ks

def typeName : Json → String
  | .null => "null"
  | .bool true => "true"
  | .bool false => "false"
  | .int _ => "integer"
  | .real _ _ => "real"
  | .str _ => "text"
  | .arr _ => "array"
  | .obj _ => "object"

/-- `json_type(document, path)`. -/
def jsonType (j : Json) (path : List String) : Value :=
  match jsonAt j path with
  | some v => .text (typeName v)
  | none => .null

/-- The SQL value of one element: containers are returned as their text. -/
def extracted : Json → Value
  | .null => .null
  | .bool b => .int (if b then 1 else 0)
  | .int n => .int n
  | .real m e => .real m e
  | .str s => .text s
  | .arr xs => .text (Json.arr xs).minify
  | .obj fs => .text (Json.obj fs).minify

/-- `json_extract(document, path)`. -/
def jsonExtract (j : Json) (path : List String) : Value :=
  ((jsonAt j path).map extracted).getD .null

/-- `coalesce(json_type(document, path), 'missing')`. -/
def typeOr (j : Json) (path : List String) : Value :=
  (jsonType j path).coalesce (.text "missing")

/-- `json_set` of one member path; missing members on the way are created. -/
def jsonSet : Json → List String → Json → Json
  | _, [], v => v
  | j, k :: ks, v => if j.isObj then j.set k (jsonSet (j.getD k (.obj [])) ks v) else j

/-- `json_remove` of one member path. -/
def jsonRemove : Json → List String → Json
  | j, [] => j
  | j, [k] => if j.isObj then j.erase k else j
  | j, k :: ks =>
    match j.get? k with
    | some w => j.set k (jsonRemove w ks)
    | none => j

end Yuki.Sql

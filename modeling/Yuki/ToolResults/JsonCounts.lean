import Yuki.ToolResults.JsonLength

/-! The bounded counter on the values a program passes to it, under any cache that
earlier calls with the same separators have filled. -/

namespace Yuki.ToolResults

inductive PyKey
  | none
  | bool (b : Bool)
  | int (n : Int)
  | real (m e : Int)
  | str (s : String)

/-- `json_key_text`. -/
def jsonKeyText : PyKey → String
  | .str s => s
  | .bool true => "true"
  | .bool false => "false"
  | .none => "null"
  | .int n => toString n
  | .real m e => String.ofList (Json.renderReal m e)

/-- A value in memory; any other object is known by its `str`. -/
inductive PyValue
  | none
  | bool (b : Bool)
  | int (n : Int)
  | real (m e : Int)
  | str (s : String)
  | other (text : String)
  | list (ident : Nat) (items : List PyValue)
  | tuple (ident : Nat) (items : List PyValue)
  | dict (ident : Nat) (fields : List (PyKey × PyValue))

namespace PyValue

mutual

/-- What `json.dumps(value, default=str)` encodes. -/
def json : PyValue → Json
  | .none => .null
  | .bool b => .bool b
  | .int n => .int n
  | .real m e => .real m e
  | .str s => .str s
  | .other text => .str text
  | .list _ items => .arr (jsonItems items)
  | .tuple _ items => .arr (jsonItems items)
  | .dict _ fields => .obj (jsonFields fields)

def jsonItems : List PyValue → List Json
  | [] => []
  | x :: xs => json x :: jsonItems xs

def jsonFields : List (PyKey × PyValue) → List (String × Json)
  | [] => []
  | (k, v) :: fs => (jsonKeyText k, json v) :: jsonFields fs

end

mutual

/-- The counter asks of a container only whether it is a dictionary, of another object
only its text, and of a key only its spelling. -/
def node : PyValue → Node
  | .none => .null
  | .bool b => .bool b
  | .int n => .int n
  | .real m e => .real m e
  | .str s => .str s
  | .other text => .str text
  | .list ident items => .arr ident (nodeItems items)
  | .tuple ident items => .arr ident (nodeItems items)
  | .dict ident fields => .obj ident (nodeFields fields)

def nodeItems : List PyValue → List Node
  | [] => []
  | x :: xs => node x :: nodeItems xs

def nodeFields : List (PyKey × PyValue) → List (String × Node)
  | [] => []
  | (k, v) :: fs => (jsonKeyText k, node v) :: nodeFields fs

end

mutual

/-- The nested calls that visit a value; the text of another object takes one more. -/
def height : PyValue → Nat
  | .list _ items => 1 + heightItems items
  | .tuple _ items => 1 + heightItems items
  | .dict _ fields => 1 + heightFields fields
  | .other _ => 2
  | _ => 1

def heightItems : List PyValue → Nat
  | [] => 0
  | x :: xs => max (height x) (heightItems xs)

def heightFields : List (PyKey × PyValue) → Nat
  | [] => 0
  | (_, v) :: fs => max (height v) (heightFields fs)

end

mutual

theorem plain_node : (v : PyValue) → v.node.plain = v.json
  | .none | .bool _ | .int _ | .real _ _ | .str _ | .other _ => rfl
  | .list _ items => by rw [node, Node.plain, plainItems_node items, json]
  | .tuple _ items => by rw [node, Node.plain, plainItems_node items, json]
  | .dict _ fields => by rw [node, Node.plain, plainFields_node fields, json]

theorem plainItems_node : (items : List PyValue) →
    Node.plainItems (nodeItems items) = jsonItems items
  | [] => rfl
  | x :: xs => by rw [nodeItems, Node.plainItems, plain_node x, plainItems_node xs, jsonItems]

theorem plainFields_node : (fields : List (PyKey × PyValue)) →
    Node.plainFields (nodeFields fields) = jsonFields fields
  | [] => rfl
  | (k, v) :: fs => by
    rw [nodeFields, Node.plainFields, plain_node v, plainFields_node fs, jsonFields]

end

mutual

theorem height_node_le : (v : PyValue) → v.node.height ≤ v.height
  | .none | .bool _ | .int _ | .real _ _ | .str _ => Nat.le_refl _
  | .other _ => by simp [node, Node.height, height]
  | .list _ items => by
    have hitems := heightItems_node_le items
    simp only [node, Node.height, height]
    omega
  | .tuple _ items => by
    have hitems := heightItems_node_le items
    simp only [node, Node.height, height]
    omega
  | .dict _ fields => by
    have hfields := heightFields_node_le fields
    simp only [node, Node.height, height]
    omega

theorem heightItems_node_le : (items : List PyValue) →
    Node.heightItems (nodeItems items) ≤ heightItems items
  | [] => Nat.le_refl _
  | x :: xs => by
    have hx := height_node_le x
    have hxs := heightItems_node_le xs
    simp only [nodeItems, Node.heightItems, heightItems]
    omega

theorem heightFields_node_le : (fields : List (PyKey × PyValue)) →
    Node.heightFields (nodeFields fields) ≤ heightFields fields
  | [] => Nat.le_refl _
  | (_, v) :: fs => by
    have hv := height_node_le v
    have hfs := heightFields_node_le fs
    simp only [nodeFields, Node.heightFields, heightFields]
    omega

end

end PyValue

def itemSeparator (compact : Bool) : List Char :=
  if compact then [','] else [',', ' ']

def keySeparator (compact : Bool) : List Char :=
  if compact then [':'] else [':', ' ']

/-- The length of `json.dumps(value, ensure_ascii=False, separators=...)`. -/
def dumpedLength (compact : Bool) (j : Json) : Int :=
  (j.chars (itemSeparator compact) (keySeparator compact)).length

/-- The caches that calls with one style of separators leave, from an empty one or none. -/
inductive Filled (compact : Bool) : Option Cache → Prop
  | none : Filled compact none
  | empty : Filled compact (some [])
  | call {cache : Option Cache} (before : Filled compact cache) (stack : Nat) (value : PyValue)
      (limit : Option Int) :
      Filled compact (jsonCharacterCount stack value.node limit compact cache).2

theorem length_itemSeparator (compact : Bool) :
    ((itemSeparator compact).length : Int) = if compact then 1 else 2 := by
  cases compact <;> rfl

theorem length_keySeparator (compact : Bool) :
    ((keySeparator compact).length : Int) = if compact then 1 else 2 := by
  cases compact <;> rfl

theorem jsonCharacterCount_counted {compact : Bool} {cache : Option Cache}
    (h : Sound (itemSeparator compact) (keySeparator compact) cache) (stack : Nat) (item : Node)
    (limit : Option Int) : Counted (itemSeparator compact) (keySeparator compact) item limit
      (jsonCharacterCount stack item limit compact cache) :=
  count_spec (length_itemSeparator compact) (length_keySeparator compact) item stack limit cache h

theorem Filled.sound {compact : Bool} {cache : Option Cache} (h : Filled compact cache) :
    Sound (itemSeparator compact) (keySeparator compact) cache := by
  induction h with
  | none => exact sound_none
  | empty => exact sound_nil
  | call _ stack value limit ih => exact (jsonCharacterCount_counted ih stack value.node limit).1

/-- The length within a limit, else one more than the limit; nothing fits a negative one. -/
def bounded (limit : Option Int) (length : Int) : Int :=
  match limit with
  | none => length
  | some l => if l < 0 then 0 else if length ≤ l then length else l + 1

theorem saturated_eq_bounded (limit : Option Int) (length : Int) :
    saturated limit length = bounded limit length := by
  cases limit with
  | none => rfl
  | some l =>
    simp only [saturated, isNegative, Option.any_some, decide_eq_true_eq, cap, bounded]
    split
    · rfl
    · split <;> omega

end Yuki.ToolResults

import Mathlib.Data.List.Sort
import Yuki.ToolResults.TextPages

/-! Pages of a JSON artifact: the children, the members or the matches at a path,
as many as fit the budget. -/

namespace Yuki.ToolResults

/-- A part of a path. -/
inductive Part
  | key (k : String)
  | index (n : Nat)
deriving DecidableEq

def Part.json : Part → Json
  | .key k => .str k
  | .index n => .int n

def pathJson (path : List Part) : Json :=
  .arr (path.map Part.json)

/-- `_path_sort_key`. -/
def pathSortKey (path : List Part) : List String :=
  path.map fun part => match part with
    | .key k => "str:" ++ k
    | .index n => "int:" ++ toString n

def Node.isContainer : Node → Bool
  | .arr _ _ => true
  | .obj _ _ => true
  | _ => false

/-- `_json_type`. -/
def jsonType : Node → String
  | .null => "null"
  | .bool _ => "boolean"
  | .int _ => "number"
  | .real _ _ => "number"
  | .str _ => "string"
  | .arr _ _ => "array"
  | .obj _ _ => "object"

/-- `_value_shape`. -/
def valueShape (value : Node) : List (String × Json) :=
  ("type", .str (jsonType value)) :: match value with
    | .obj _ fields => [("child_count", .int fields.length)]
    | .arr _ items => [("length", .int items.length)]
    | .str s => [("characters", .int s.toList.length)]
    | _ => []

/-- `_scalar_text`. -/
def scalarText : Node → String
  | .str s => s
  | item => .ofList (item.plain.chars [] [])

/-- `_logical_artifact_root`. -/
def logicalArtifactRoot (value : Node) : Node × String :=
  match value with
  | .obj _ fields =>
    match fields.lookup "data" with
    | some data =>
      if (fields.lookup "provider_id").isSome || (fields.lookup "tool_name").isSome ||
          (fields.lookup "ok").isSome then (data, "data")
      else (value, "$")
    | none => (value, "$")
  | _ => (value, "$")

def pathNotFound (detail : String) (traversed : List Part) (failed : Part) : Json :=
  artifactError "artifact_path_not_found" detail
    [("path", pathJson traversed), ("failed_part", failed.json)]

/-- `_resolve_artifact_path` from the parts already traversed. -/
def resolveArtifactPath : Node → List Part → List Part → Except Json Node
  | value, _, [] => .ok value
  | .obj _ fields, traversed, part :: path =>
    match part with
    | .key k =>
      match fields.lookup k with
      | some child => resolveArtifactPath child (traversed ++ [part]) path
      | none => .error (pathNotFound "Artifact 对象路径不存在" traversed part)
    | .index _ => .error (pathNotFound "Artifact 对象路径不存在" traversed part)
  | .arr _ items, traversed, part :: path =>
    match part with
    | .index n =>
      match items[n]? with
      | some child => resolveArtifactPath child (traversed ++ [part]) path
      | none => .error (pathNotFound "Artifact 数组下标不存在" traversed part)
    | .key _ => .error (pathNotFound "Artifact 数组下标不存在" traversed part)
  | _, traversed, part :: _ => .error (pathNotFound "Artifact 路径穿过了标量值" traversed part)

/-! The longest prefix. -/

def prefixLoop (fixed : Int) (offset total : Nat) (terminal : Bool) (budget : Nat) :
    List (Option Int) → Nat → Int → Nat → Nat
  | [], _, _, best => best
  | none :: _, _, _, best => best
  | some size :: sizes, count, used, best =>
    let count := count + 1
    let used := used + size + if count > 1 then 2 else 0
    let stop := offset + count
    let cursor := if stop < total then digits stop else 4
    let best := if fixed + used + cursor ≤ budget then count else best
    let floor := if terminal then min (digits stop) 4 else digits stop
    if fixed + used + floor > budget then best
    else prefixLoop fixed offset total terminal budget sizes count used best

/-- `_prefix_count`. -/
def prefixCount (sizes : List (Option Int)) (fixed : Int) (offset total limit budget : Nat) : Nat :=
  let terminal := offset + min limit (total - offset) = total
  prefixLoop fixed offset total terminal budget (sizes.take limit) 0 0 0

/-- A page with its collection and its cursor. -/
def collectionPage (front : List (String × Json)) (name : String) (collection : Json)
    (next : Option Nat) (back : List (String × Json)) : Json :=
  .obj (front ++ (name, collection) :: ("next_offset", optionalInt next) :: back)

def nextOffset (offset count total : Nat) : Option Nat :=
  if offset + count < total then some (offset + count) else none

/-- `nsmallest(offset + limit, items, key)[offset:]`, with the items in order. -/
def selected {α : Type} (sorted : List α) (offset limit : Nat) : List α :=
  (sorted.take (offset + limit)).drop offset

section Operations

/-- The interpreter and the place: the calls left, the folding of the standard library, and the
fields with which every page starts. -/
structure Setting where
  stack : Nat
  casefold : String → String
  handle : String
  logicalRoot : String
  providerId : String
  toolName : String

def Setting.base (g : Setting) : List (String × Json) :=
  [("handle", .str g.handle), ("mode", .str "json"), ("logical_root", .str g.logicalRoot),
    ("provider_id", .str g.providerId), ("tool_name", .str g.toolName)]

def Setting.sortedFields (g : Setting) (fields : List (String × Node)) : List (String × Node) :=
  fields.insertionSort fun a b => g.casefold a.1 ≤ g.casefold b.1

/-- `_page_fixed_size`. -/
def Setting.pageFixedSize (g : Setting) (page : Json) : Option Int :=
  (artifactPageSize g.stack page none).map fun size => size - 4

def Setting.countOf (g : Setting) (value : Node) (limit : Nat) (cache : Option Cache) :
    Option Int × Option Cache :=
  jsonCharacterCount g.stack value (some limit) false cache

/-! inspect. -/

def inspectFront (g : Setting) (path : List Part) (value : Node) : List (String × Json) :=
  g.base ++ [("path", pathJson path), ("type", .str (jsonType value))]

/-- The children of a container as `inspect` shows them. -/
def inspectChildren (g : Setting) : Node → List Json
  | .obj _ fields => (g.sortedFields fields).map fun f => .obj (("key", .str f.1) :: valueShape f.2)
  | .arr _ items => items.zipIdx.map fun x => .obj (("index", .int x.2) :: valueShape x.1)
  | _ => []

def inspectPage (g : Setting) (path : List Part) (value : Node) (children : List Json)
    (next : Option Nat) : Json :=
  let total := match value with
    | .obj _ fields => [("total_children", Json.int fields.length)]
    | .arr _ items => [("length", .int items.length)]
    | _ => []
  collectionPage (inspectFront g path value ++ total) "children" (.arr children) next []

def inspectJson (g : Setting) (value : Node) (path : List Part) (offset limit maxCharacters : Nat) :
    Option Json :=
  if value.isContainer then do
    let children := inspectChildren g value
    if offset ≥ children.length then return inspectPage g path value [] none
    else
      let shown := selected children offset limit
      let sizes := shown.map fun child => (g.countOf (.ofJson child) maxCharacters none).1
      let fixed ← g.pageFixedSize (inspectPage g path value [] none)
      let count := prefixCount sizes fixed offset children.length limit maxCharacters
      if count = 0 then
        return artifactError "artifact_budget_too_small" "无法放入一个子项，请增大预算"
          (g.base ++ [("path", pathJson path), ("offset", .int offset), ("next_offset", .int offset)])
      else
        return inspectPage g path value (shown.take count) (nextOffset offset count children.length)
  else match value with
    | .str s => some (.obj (inspectFront g path value ++ [("characters", .int s.toList.length)]))
    | _ => some (.obj (inspectFront g path value ++ [("value", value.plain)]))

/-! get. -/

/-- `_oversized_value`. -/
def oversizedValue (g : Setting) (path : List Part) (value : Node) (maxCharacters : Nat) : Json :=
  let withEstimate (estimate : Option Json) : Json :=
    artifactError "artifact_value_too_large" "目标值无法完整放入当前工具结果预算，请读取更深层路径"
      (g.base ++ [("path", pathJson path), ("value_shape", .obj (valueShape value))] ++
        (estimate.map fun e => ("estimated_characters", e)).toList)
  if artifactPageFits g.stack (withEstimate (some (.int 0))) maxCharacters then
    let size := (jsonCharacterCount g.stack value none false none).1
    let result := withEstimate (some (size.elim .null .int))
    if artifactPageFits g.stack result maxCharacters then result else withEstimate none
  else withEstimate none

/-- The members of a container as `get` pages through them. -/
def getMembers (g : Setting) : Node → List (Option String × Node)
  | .obj _ fields => (g.sortedFields fields).map fun f => (some f.1, f.2)
  | .arr _ items => items.map fun x => (none, x)
  | _ => []

/-- The sizes of members, with the cache from one to the next. -/
def memberSizes (g : Setting) (maxCharacters : Nat) : List (Option String × Node) → Option Cache →
    List (Option Int)
  | [], _ => []
  | (none, v) :: members, cache =>
    let counted := g.countOf v maxCharacters cache
    counted.1 :: memberSizes g maxCharacters members counted.2
  | (some k, v) :: members, cache =>
    let key := (g.countOf (.str k) maxCharacters none).1
    let counted := g.countOf v maxCharacters cache
    (key.bind fun key => counted.1.map fun value => key + 2 + value) ::
      memberSizes g maxCharacters members counted.2

/-- The collection of some members, of the kind of the whole. -/
def collectionOf (value : Node) (members : List (Option String × Node)) : Json :=
  match value with
  | .obj _ _ => .obj (members.map fun m => (m.1.getD "", m.2.plain))
  | _ => .arr (members.map fun m => m.2.plain)

def getPage (g : Setting) (path : List Part) (value : Node) (total offset : Nat)
    (members : List (Option String × Node)) (next : Option Nat) : Json :=
  collectionPage (inspectFront g path value ++ [("total_items", .int total), ("offset", .int offset)])
    "value" (collectionOf value members) next []

def directPage (g : Setting) (path : List Part) (value : Node) : Json :=
  .obj (inspectFront g path value ++ [("value", value.plain)])

def getJson (g : Setting) (value : Node) (path : List Part) (offset limit maxCharacters : Nat) :
    Option Json :=
  match value with
  | .str s =>
    stringPage g.stack ((s.toList.drop offset).take (min limit maxCharacters)) s.toList.length offset
      (.obj (g.base ++ [("path", pathJson path), ("type", .str "string")])) maxCharacters none
  | _ =>
    let members := getMembers g value
    if offset = 0 && (!value.isContainer || decide (members.length ≤ limit)) &&
        artifactPageFits g.stack (directPage g path value) maxCharacters then
      some (directPage g path value)
    else if !value.isContainer then some (oversizedValue g path value maxCharacters)
    else if offset ≥ members.length then
      some (getPage g path value members.length offset [] none)
    else do
      let shown := selected members offset limit
      let sizes := memberSizes g maxCharacters shown (some [])
      let fixed ← g.pageFixedSize (getPage g path value members.length offset [] none)
      let count := prefixCount sizes fixed offset members.length limit maxCharacters
      if count = 0 then return oversizedValue g path value maxCharacters
      else
        return getPage g path value members.length offset (shown.take count)
          (nextOffset offset count members.length)

/-! search. -/

structure Found where
  path : List Part
  matchedKey : Option String
  value : Node

def isJsonScalar : Node → Bool
  | .arr _ _ => false
  | .obj _ _ => false
  | _ => true

/-- `part in text`. -/
def contains (text part : String) : Bool :=
  (findText text.toList part.toList).isSome

/-- One member of an object; `down` is the walk into it, and the first flag says whether the
object is already recorded. -/
def walkField (g : Setting) (folded : String) (item : Node) (path : List Part)
    (down : Node → List Part → Bool → Option (List Found × Nat)) (s : Bool × List Found × Nat)
    (f : String × Node) : Option (Bool × List Found × Nat) :=
  let matched := contains (g.casefold f.1) folded
  if isJsonScalar f.2 then
    if !s.1 && (matched || contains (g.casefold (scalarText f.2)) folded) then
      some (true, s.2.1 ++ [⟨path, some f.1, item⟩], s.2.2)
    else some s
  else
    (down f.2 (path ++ [.key f.1]) matched).map fun below =>
      (s.1, s.2.1 ++ below.1, s.2.2 + below.2)

def walkItem (g : Setting) (folded : String) (path : List Part)
    (down : Node → List Part → Bool → Option (List Found × Nat)) (s : List Found × Nat)
    (x : Node × Nat) : Option (List Found × Nat) :=
  if isJsonScalar x.1 then
    if contains (g.casefold (scalarText x.1)) folded then
      some (s.1 ++ [⟨path ++ [.index x.2], none, x.1⟩], s.2)
    else some s
  else (down x.1 (path ++ [.index x.2]) false).map fun below => (s.1 ++ below.1, s.2 + below.2)

/-- The inner `walk`: what is found below an item and how many nodes were scanned; nothing
where the calls run out. -/
def walk (g : Setting) (folded : String) :
    Nat → Node → List Part → Bool → Option (List Found × Nat)
  | 0, _, _, _ => none
  | stack + 1, item, path, keyMatch =>
    let own : List Found := if keyMatch then [⟨path, none, item⟩] else []
    match item with
    | .obj _ fields =>
      ((g.sortedFields fields).foldlM (walkField g folded item path (walk g folded stack))
        (keyMatch, own, 1)).map (·.2)
    | .arr _ items => items.zipIdx.foldlM (walkItem g folded path (walk g folded stack)) (own, 1)
    | _ =>
      if !keyMatch && contains (g.casefold (scalarText item)) folded then
        some (own ++ [⟨path, none, item⟩], 1)
      else some (own, 1)

/-- The first entry for each path. -/
def firstOfPath : List Found → List Found → List Found
  | kept, [] => kept
  | kept, found :: rest =>
    if kept.any fun f => f.path = found.path then firstOfPath kept rest
    else firstOfPath (kept ++ [found]) rest

/-- `matches`, in the order in which they are paged. -/
def searchMatches (g : Setting) (value : Node) (path : List Part) (query : String) :
    Option (List Found × Nat) :=
  (walk g (g.casefold query) g.stack value path false).map fun found =>
    ((firstOfPath [] found.1).insertionSort fun a b => pathSortKey a.path ≤ pathSortKey b.path,
      found.2)

def matchedPath (found : Found) : List Part :=
  found.path ++ (found.matchedKey.map Part.key).toList

/-- A match as it is shown; `ident` are the identities of its containers. -/
def candidate (ident : Nat × Nat × Nat) (found : Found) : Node :=
  .obj ident.1 [("path", .arr ident.2.1 (found.path.map fun p => .ofJson p.json)),
    ("matched_path", .arr ident.2.2 ((matchedPath found).map fun p => .ofJson p.json)),
    ("value", found.value)]

def omittedCandidate (ident : Nat × Nat × Nat) (shape : Nat) (found : Found) : Node :=
  .obj ident.1 [("path", .arr ident.2.1 (found.path.map fun p => .ofJson p.json)),
    ("matched_path", .arr ident.2.2 ((matchedPath found).map fun p => .ofJson p.json)),
    ("value_omitted", .bool true),
    ("value_shape", .obj shape (Node.ofFields (valueShape found.value))),
    ("instruction", .str "匹配对象过大，请对 path 执行 inspect 或 get")]

/-- The matches of a page as they are shown, with their sizes; `fresh` gives the identities of
the containers made for each. -/
def preparedMatches (g : Setting) (fresh : Nat → (Nat × Nat × Nat) × Nat) (maxCharacters : Nat) :
    List Found → Nat → Option Cache → Option (List (Node × Option Int))
  | [], _, _ => some []
  | found :: rest, index, cache => do
    let ident := fresh index
    let counted := g.countOf found.value maxCharacters cache
    let fixed ← g.pageFixedSize (candidate ident.1 { found with value := .null }).plain
    let shown := if counted.1.any fun size => fixed + size ≤ maxCharacters then
      candidate ident.1 found else omittedCandidate ident.1 ident.2 found
    let size := g.countOf shown maxCharacters counted.2
    let prepared ← preparedMatches g fresh maxCharacters rest (index + 1) size.2
    return (shown, size.1) :: prepared

def searchPage (g : Setting) (query : String) (scanned : Nat) (found : List Json)
    (next : Option Nat) : Json :=
  collectionPage (g.base ++ [("query", .str query)]) "matches" (.arr found) next
    [("scanned_nodes", .int scanned)]

def searchJson (g : Setting) (fresh : Nat → (Nat × Nat × Nat) × Nat) (value : Node)
    (path : List Part) (query : String) (offset limit maxCharacters : Nat) : Option Json := do
  let (found, scanned) ← searchMatches g value path query
  let shown := selected found offset limit
  let prepared ← preparedMatches g fresh maxCharacters shown 0 (some [])
  let fixed ← g.pageFixedSize (searchPage g query scanned [] none)
  let count := prefixCount (prepared.map (·.2)) fixed offset found.length limit maxCharacters
  if shown ≠ [] && count = 0 then
    return artifactError "artifact_budget_too_small" "无法放入一个匹配，请增大预算或读取更深path"
      (g.base ++ [("path", pathJson path), ("offset", .int offset), ("next_offset", .int offset)])
  else
    return searchPage g query scanned ((prepared.take count).map fun p => p.1.plain)
      (nextOffset offset count found.length)

end Operations

end Yuki.ToolResults

import Yuki.ToolResults.JsonLength

/-! The result of reading an artifact as the model sees it, and the size of that
envelope. -/

namespace Yuki.ToolResults

structure ToolExecutionResult where
  ok : Bool
  data : Json
  errorCode : Option String := none
  publicMessage : Option String := none
  retryable : Bool := false
  mutationCommitted : Option Bool := none
  uncertain : Bool := false
  providerId : String
  toolName : String

def optionalStr (s : Option String) : Json :=
  s.elim .null .str

def optionalBool (b : Option Bool) : Json :=
  b.elim .null .bool

def optionalInt (n : Option Nat) : Json :=
  n.elim .null fun n => .int n

/-- `model_payload` of a result of a provider that runs no processes. -/
def ToolExecutionResult.modelPayload (r : ToolExecutionResult) : Json :=
  let payload : Json := .obj
    ([("ok", .bool r.ok), ("data", r.data), ("error_code", optionalStr r.errorCode),
      ("public_message", optionalStr r.publicMessage), ("retryable", .bool r.retryable),
      ("mutation_committed", optionalBool r.mutationCommitted)] ++
    (if r.uncertain then [("uncertain", .bool true)] else []) ++
    [("provider_id", .str r.providerId), ("tool_name", .str r.toolName)])
  let payload := if (r.data.get "executed").isBool then
    payload.set "executed" (r.data.get "executed") else payload
  .obj (payload.fields.filter fun f => f.2 ≠ .null ∧ f.2 ≠ .str "")

def artifactError (errorCode detail : String) (metadata : List (String × Json)) : Json :=
  .obj ([("error_code", .str errorCode), ("detail", .str detail)] ++ metadata)

def pageResult (data : Json) : ToolExecutionResult where
  ok := true
  data := data
  mutationCommitted := some false
  providerId := "artifacts"
  toolName := "read_tool_artifact"

/-- The result whose text `artifact_page_size` counts. -/
def artifactResult (value : Json) : ToolExecutionResult :=
  match value.get "error_code" with
  | .str errorCode =>
    let data := (value.erase "error_code").erase "detail"
    { ok := false
      data := if data.truthy then data else .null
      errorCode := some errorCode
      publicMessage := some (match value.get "detail" with
        | .str detail => if detail = "" then "Artifact 读取失败" else detail
        | _ => "Artifact 读取失败")
      providerId := "artifacts", toolName := "read_tool_artifact" }
  | _ => pageResult value

/-- The JSON envelope of a page or an error. -/
def artifactEnvelope (value : Json) : Json :=
  (artifactResult value).modelPayload

def artifactPageSize (stack : Nat) (value : Json) (limit : Option Int) : Option Int :=
  (jsonCharacterCount stack (.ofJson (artifactEnvelope value)) limit false none).1

def artifactPageFits (stack : Nat) (value : Json) (maxCharacters : Nat) : Bool :=
  (artifactPageSize stack value (some maxCharacters)).any fun size => size ≤ (maxCharacters : Int)

/-- A page is data of a result, not an error and not the record of an execution. -/
def IsPage (value : Json) : Prop :=
  value.isObj = true ∧ (∀ s, value.get "error_code" ≠ .str s) ∧ (value.get "executed").isBool = false

theorem artifactEnvelope_page {value : Json} (h : IsPage value) :
    artifactEnvelope value = .obj
      [("ok", .bool true), ("data", value), ("retryable", .bool false),
        ("mutation_committed", .bool false), ("provider_id", .str "artifacts"),
        ("tool_name", .str "read_tool_artifact")] := by
  obtain ⟨hobj, herr, hexec⟩ := h
  have hres : artifactResult value = pageResult value := by
    unfold artifactResult
    split
    · next code hc => exact absurd hc (herr code)
    · rfl
  have hdata : value ≠ .null ∧ value ≠ .str "" := by
    constructor <;> rintro rfl <;> simp [Json.isObj] at hobj
  rw [artifactEnvelope, hres]
  simp [ToolExecutionResult.modelPayload, pageResult, hexec, hdata, optionalStr, optionalBool, Json.fields]

def emptyEnvelope : Int :=
  dumpsLength (artifactEnvelope (.obj [])) - 2

/-- The envelope of a page is as much longer than its data in every page. -/
theorem dumpsLength_envelope {value : Json} (h : IsPage value) :
    dumpsLength (artifactEnvelope value) = emptyEnvelope + dumpsLength value := by
  have hempty : IsPage (.obj []) := ⟨rfl, fun s => by simp [Json.get, Json.getD, Json.get?, Json.fields], rfl⟩
  have hlen : dumpsLength (.obj []) = 2 := rfl
  rw [emptyEnvelope, artifactEnvelope_page h, artifactEnvelope_page hempty]
  simp only [dumpsLength, textLength_obj, fieldsLength] at hlen ⊢
  omega

theorem height_envelope {value : Json} (h : IsPage value) :
    (Node.ofJson (artifactEnvelope value)).height = 1 + (Node.ofJson value).height := by
  have hpos := (Node.ofJson value).height_pos
  rw [artifactEnvelope_page h]
  simp [Node.ofFields, Node.heightFields, Node.ofJson, Node.height]
  omega

/-- The size of a page, where the interpreter has calls enough to count it. -/
theorem artifactPageSize_page {stack : Nat} {value : Json} (h : IsPage value)
    (hh : (Node.ofJson value).height < stack) (limit : Option Int) :
    artifactPageSize stack value limit =
      some (saturated limit (dumpsLength (artifactEnvelope value))) := by
  have hcount := (jsonCharacterCount_spec stack (.ofJson (artifactEnvelope value)) limit
    sound_none).2.2 (by rw [height_envelope h]; omega)
  rw [Node.plain_ofJson] at hcount
  exact hcount

theorem artifactPageFits_page {stack : Nat} {value : Json} (h : IsPage value)
    (hh : (Node.ofJson value).height < stack) (maxCharacters : Nat) :
    artifactPageFits stack value maxCharacters = true ↔
      dumpsLength (artifactEnvelope value) ≤ maxCharacters := by
  rw [artifactPageFits, artifactPageSize_page h hh]
  have hneg : isNegative (some (maxCharacters : Int)) = false := by simp [isNegative]
  simp only [Option.any_some, decide_eq_true_eq, saturated, hneg, Bool.false_eq_true, if_false, cap]
  omega

end Yuki.ToolResults

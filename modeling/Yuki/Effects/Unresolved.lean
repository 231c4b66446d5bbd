import Yuki.Effects.Receipt

/-! Unresolved effects, as the SQL fence selects them and as the reader of a receipt
reports them. -/

namespace Yuki

open Json

namespace Sql

/-- `coalesce(json_type(document, path), 'missing') IN names`. -/
def typeIn (j : Json) (path : List String) (names : List String) : Truth :=
  (typeOr j path).isIn (names.map .text)

theorem Truth.eq_some {t : Truth} {b : Bool} (hs : t.isSome) (h : t.holds = b) : t = some b := by
  rcases t with _ | t
  · simp at hs
  · rw [← h, holds_some]

/-- The type name of a member, with one for a missing member. -/
def nameOr (v : Option Json) : String :=
  (v.map typeName).getD "missing"

theorem typeOr_eq (j : Json) (path : List String) : typeOr j path = .text (nameOr (jsonAt j path)) := by
  unfold typeOr jsonType nameOr
  cases jsonAt j path <;> rfl

theorem Value.isIn_text (s : String) (names : List String) :
    (Value.text s).isIn (names.map .text) = some (names.contains s) := by
  induction names with
  | nil => rfl
  | cons n names ih =>
    simp only [Value.isIn, List.map_cons, Truth.any, Value.eq, List.contains_cons] at ih ⊢
    rw [ih]
    cases s == n <;> cases names.contains s <;> rfl

@[simp] theorem typeIn_eq (j : Json) (path : List String) (names : List String) :
    typeIn j path names = some (names.contains (nameOr (jsonAt j path))) := by
  rw [typeIn, typeOr_eq, Value.isIn_text]

@[simp] theorem Value.eq_text (s t : String) : (Value.text s).eq (.text t) = some (s == t) := rfl

@[simp] theorem Truth.and_some (a b : Bool) : Truth.and (some a) (some b) = some (a && b) := by
  cases a <;> cases b <;> rfl

@[simp] theorem Truth.or_some (a b : Bool) : Truth.or (some a) (some b) = some (a || b) := by
  cases a <;> cases b <;> rfl

@[simp] theorem Truth.true_or (t : Truth) : Truth.or (some true) t = some true := by
  cases t <;> rfl

@[simp] theorem Truth.or_true (t : Truth) : Truth.or t (some true) = some true := by
  rcases t with _ | _ | _ <;> rfl

@[simp] theorem Truth.not_some (b : Bool) : Truth.not (some b) = some !b := rfl

theorem jsonAt_one (j : Json) (k : String) : jsonAt j [k] = j.get? k := by
  simp [jsonAt]

theorem jsonAt_two (j : Json) (k l : String) : jsonAt j [k, l] = (j.get k).get? l := by
  simp only [jsonAt, get_eq]
  cases j.get? k with
  | none => rfl
  | some v => simp

end Sql

/-- `v == n` for a number `n`. -/
def Json.equals (v : Json) (n : Int) : Bool :=
  match v with
  | .bool b => (if b then 1 else 0) == n
  | .int m => m == n
  | .real m e => Sql.realEqInt m e n
  | _ => false

namespace WorkRepository

open Sql

/-- `_lifecycle_role_clause`. -/
def lifecycleRoleClause (r : EffectRow) : Truth :=
  ((typeOr r.receiptJson.value ["outcome", "side_effecting"]).eq (.text "false")).not

/-- `_known_native_final_clause`. -/
def knownNativeFinalClause (r : EffectRow) : Truth :=
  let receipt := r.receiptJson.value
  let fieldIn (name : String) (names : List String) : Truth := typeIn receipt [name] names
  let domain := Truth.all [some (r.kind == "final"), fieldIn "outcome" ["missing"],
    fieldIn "result" ["missing"], fieldIn "status" ["missing"], fieldIn "ok" ["missing"]]
  let accepted := Truth.all [some (r.state == .accepted), fieldIn "transport_accepted" ["true"],
    fieldIn "error" ["missing"], fieldIn "pending" ["missing", "false"],
    fieldIn "uncertain" ["missing", "false"], fieldIn "executed" ["missing", "true"],
    fieldIn "mutation_committed" ["missing", "true"]]
  let refused := Truth.all [some (r.state == .failed), fieldIn "error" ["text"],
    ((jsonExtract receipt ["error"]).coalesce (.text "")).eq (.text "delivery_not_dispatched"),
    fieldIn "executed" ["false"], fieldIn "mutation_committed" ["false"],
    fieldIn "transport_accepted" ["missing"], fieldIn "pending" ["missing", "false"],
    fieldIn "uncertain" ["missing", "false"]]
  domain.and (accepted.or refused)

/-- The members of an outcome that are booleans, and the types allowed for each. -/
def outcomeTypes : List (String × List String) :=
  ["ok", "pending", "uncertain", "side_effecting", "executed", "retryable"].map
      (fun field => (field, ["missing", "true", "false"])) ++
    [("mutation_committed", ["missing", "true", "false", "null"]),
      ("status", ["missing", "null", "text"])]

/-- `absent` of `_unknown_historical_outcome_clause`. -/
def absentOutcome (receipt : Json) : Truth :=
  (typeIn receipt ["outcome"] ["missing", "null"]).or
    ((jsonExtract receipt ["outcome"]).eq (.text "{}"))

def meaningfulOutcome (receipt : Json) : Truth :=
  Truth.any [typeIn receipt ["outcome", "ok"] ["true", "false"],
    typeIn receipt ["outcome", "pending"] ["true"],
    typeIn receipt ["outcome", "uncertain"] ["true"],
    typeIn receipt ["outcome", "side_effecting"] ["false"]]

/-- `_unknown_historical_outcome_clause`. -/
def unknownHistoricalOutcomeClause (r : EffectRow) : Truth :=
  let receipt := r.receiptJson.value
  let malformed := (typeIn receipt ["outcome"] ["object", "missing", "null"]).not ::
    outcomeTypes.map (fun t => (typeIn receipt ["outcome", t.1] t.2).not) ++
    [(absentOutcome receipt).not.and (meaningfulOutcome receipt).not]
  (knownNativeFinalClause r).not.and ((Truth.any malformed).or (absentOutcome receipt))

/-- `never_dispatched` of `_unresolved_clause`. -/
def neverDispatchedClause (r : EffectRow) : Truth :=
  Truth.all [some (r.state == .prepared),
    ((jsonExtract r.receiptJson.value ["invocation", "version"]).coalesce (.int 0)).eq (.int 1),
    ((jsonExtract r.receiptJson.value ["invocation", "dispatch_started"]).coalesce (.int 1)).eq
      (.int 0)]

/-- `_unresolved_clause`. -/
def unresolvedClause (pending uncertain : Bool) (r : EffectRow) : Truth :=
  let receipt := r.receiptJson.value
  let status (names : List String) : Truth :=
    (jsonExtract receipt ["outcome", "status"]).isIn (names.map .text)
  let malformed := unknownHistoricalOutcomeClause r
  let clauses :=
    (if pending then [((jsonExtract receipt ["outcome", "pending"]).eq (.int 1)).or
      (status ["running", "queued", "waiting"])] else []) ++
    if uncertain then [(jsonExtract receipt ["outcome", "uncertain"]).eq (.int 1),
      status ["unknown", "uncertain"],
      some (r.state == .prepared || r.state == .unknown), malformed] else []
  Truth.all [(lifecycleRoleClause r).or malformed,
    (Truth.any clauses).and (neverDispatchedClause r).not,
    Truth.or (some (r.kind != "code_composition"))
      (((jsonExtract receipt ["composition", "version"]).coalesce (.int 0)).eq (.int 1)).not]

end WorkRepository

namespace EffectRow

/-- The row's receipt as `historical_evidence` reads it. -/
def evidence (r : EffectRow) : Json :=
  historicalEvidence r.receiptJson.value r.state r.kind

/-- The evidence reports a pending or uncertain side effect. -/
def reported (r : EffectRow) : Bool :=
  (r.evidence.get "pending" == .bool true || r.evidence.get "uncertain" == .bool true) &&
    r.evidence.get "side_effecting" != .bool false

/-- No outcome was stored, and the row is no exact transport receipt. -/
def outcomeUnknown (r : EffectRow) : Bool :=
  (r.receiptJson.value.get "outcome" == .null || r.receiptJson.value.get "outcome" == .obj []) &&
    finalTransport r.receiptJson.value r.state r.kind == none

/-- A version-1 intent that was never dispatched. -/
def neverDispatched (r : EffectRow) : Bool :=
  let invocation := r.receiptJson.value.get "invocation"
  r.state == .prepared && (invocation.get "version").equals 1 &&
    (invocation.get "dispatch_started").equals 0

/-- A recognized composition, which only aggregates. -/
def aggregates (r : EffectRow) : Bool :=
  r.kind == "code_composition" &&
    ((r.receiptJson.value.get "composition").get "version").equals 1

end EffectRow

/-! Types of members. -/

namespace Sql

theorem bool_types (v : Option Json) :
    ["missing", "true", "false"].contains (nameOr v) = v.all isBool := by
  rcases v with _ | v
  · rfl
  · cases v with
    | bool b => cases b <;> rfl
    | _ => rfl

theorem nullable_types (j : Json) (k : String) :
    ["missing", "true", "false", "null"].contains (nameOr (j.get? k)) =
      (j.get k == .null || (j.get k).isBool) := by
  rw [get_eq]
  rcases j.get? k with _ | v
  · rfl
  · cases v with
    | bool b => cases b <;> rfl
    | _ => rfl

theorem text_types (j : Json) (k : String) :
    ["missing", "null", "text"].contains (nameOr (j.get? k)) =
      (j.get k == .null || (j.get k).isStr) := by
  rw [get_eq]
  rcases j.get? k with _ | v
  · rfl
  · cases v with
    | bool b => cases b <;> rfl
    | _ => rfl

theorem missing_type (j : Json) (k : String) :
    ["missing"].contains (nameOr (j.get? k)) = !j.has k := by
  rw [has_eq]
  rcases j.get? k with _ | v
  · rfl
  · cases v with
    | bool b => cases b <;> rfl
    | _ => rfl

theorem text_type (j : Json) (k : String) :
    ["text"].contains (nameOr (j.get? k)) = (j.get k).isStr := by
  rw [get_eq]
  rcases j.get? k with _ | v
  · rfl
  · cases v with
    | bool b => cases b <;> rfl
    | _ => rfl

theorem true_type (j : Json) (k : String) :
    ["true"].contains (nameOr (j.get? k)) = (j.get k == .bool true) := by
  rw [get_eq]
  rcases j.get? k with _ | v
  · rfl
  · cases v with
    | bool b => cases b <;> rfl
    | _ => rfl

theorem false_type (j : Json) (k : String) :
    ["false"].contains (nameOr (j.get? k)) = (j.get k == .bool false) := by
  rw [get_eq]
  rcases j.get? k with _ | v
  · rfl
  · cases v with
    | bool b => cases b <;> rfl
    | _ => rfl

theorem default_types (j : Json) (k : String) (b : Bool) :
    ["missing", typeName (.bool b)].contains (nameOr (j.get? k)) =
      (j.getD k (.bool b) == .bool b) := by
  rw [getD_eq]
  rcases j.get? k with _ | v
  · simp [nameOr]
  · cases b <;> cases v with
    | bool c => cases c <;> rfl
    | _ => rfl

end Sql

namespace WorkRepository

open Sql

theorem error_isSome (v : Value) (s t : String) :
    ((v.coalesce (.text s)).eq (.text t)).isSome = true := by
  cases v <;> rfl

/-- The text comparison of the clause, on a member known to be a text. -/
theorem error_text (j : Json) (k t : String) :
    ((j.get k).isStr && (((jsonExtract j [k]).coalesce (.text "")).eq (.text t)).holds) =
      (j.get k == .str t) := by
  simp only [jsonExtract, jsonAt_one, get_eq]
  rcases j.get? k with _ | v
  · rfl
  · cases v with
    | str s =>
      simp only [Option.getD_some, isStr, Option.map_some, extracted, Value.coalesce, Value.eq_text,
        Truth.holds_some, Bool.true_and]
      by_cases h : s = t
      · simp [h]
      · simp [h]
    | _ => rfl

/-- The clause of a transport receipt is the reader's own test. -/
theorem knownNativeFinalClause_eq (r : EffectRow) : knownNativeFinalClause r =
    some (finalTransport r.receiptJson.value r.state r.kind).isSome := by
  refine Truth.eq_some ?_ ?_
  · simp only [knownNativeFinalClause, typeIn_eq]
    refine Truth.isSome_and _ _ (Truth.isSome_all fun t ht => ?_)
      (Truth.isSome_or _ _ (Truth.isSome_all fun t ht => ?_) (Truth.isSome_all fun t ht => ?_))
    · simp only [List.mem_cons, List.not_mem_nil, or_false] at ht
      rcases ht with rfl | rfl | rfl | rfl | rfl <;> rfl
    · simp only [List.mem_cons, List.not_mem_nil, or_false] at ht
      rcases ht with rfl | rfl | rfl | rfl | rfl | rfl | rfl <;> rfl
    · simp only [List.mem_cons, List.not_mem_nil, or_false] at ht
      rcases ht with rfl | rfl | rfl | rfl | rfl | rfl | rfl | rfl <;>
        first | rfl | exact error_isSome ..
  · have hfalse := fun k => default_types r.receiptJson.value k false
    have htrue := fun k => default_types r.receiptJson.value k true
    have herror := error_text r.receiptJson.value "error" "delivery_not_dispatched"
    simp only [typeName] at hfalse htrue
    simp only [knownNativeFinalClause, typeIn_eq, jsonAt_one, missing_type, text_type, true_type,
      false_type, hfalse, htrue, Truth.holds_and, Truth.holds_or, Truth.holds_all, List.all_cons,
      List.all_nil, Truth.holds_some, Bool.and_true]
    have hchoice (c a b : Bool) :
        (if c = true then none else if a = true then some true else if b = true then some false
          else (none : Option Bool)).isSome = (!c && (a || b)) := by
      cases c <;> cases a <;> cases b <;> rfl
    have herror' (x : Bool) : ((r.receiptJson.value.get "error").isStr &&
        ((((jsonExtract r.receiptJson.value ["error"]).coalesce (.text "")).eq
          (.text "delivery_not_dispatched")).holds && x)) =
        (r.receiptJson.value.get "error" == .str "delivery_not_dispatched" && x) := by
      rw [← Bool.and_assoc, herror]
    simp only [finalTransport, hchoice, herror', List.any_cons, List.any_nil, Bool.or_false,
      Bool.not_or, Bool.and_assoc, decide_not, Bool.not_not, Bool.beq_eq_decide_eq]

theorem bool_types_two (o : Json) (k : String) :
    ["true", "false"].contains (nameOr (o.get? k)) = (o.get k).isBool := by
  rw [get_eq]
  rcases o.get? k with _ | v
  · rfl
  · cases v with
    | bool b => cases b <;> rfl
    | _ => rfl

/-- An outcome that is missing, empty, or not typed well enough to be believed. -/
theorem unknownHistoricalOutcomeClause_eq (r : EffectRow) : unknownHistoricalOutcomeClause r =
    some (!(finalTransport r.receiptJson.value r.state r.kind).isSome &&
      (!validEvidence (r.receiptJson.value.get "outcome") ||
        (r.receiptJson.value.get "outcome" == .null ||
          r.receiptJson.value.get "outcome" == .obj []))) := by
  simp only [unknownHistoricalOutcomeClause, knownNativeFinalClause_eq, Truth.not_some]
  generalize (finalTransport r.receiptJson.value r.state r.kind).isSome = final
  generalize r.receiptJson.value = receipt
  have habsent : receipt.get "outcome" = .null → absentOutcome receipt = some true := by
    intro h
    rw [get_eq] at h
    simp only [absentOutcome, typeIn_eq, jsonAt_one]
    rcases hv : receipt.get? "outcome" with _ | v
    · exact Truth.true_or _
    · rw [hv, Option.getD_some] at h
      subst h
      exact Truth.true_or _
  have hodd : (receipt.get "outcome").isObj = false → receipt.get "outcome" ≠ .null →
      (typeIn receipt ["outcome"] ["object", "missing", "null"]).not = some true := by
    intro ho hn
    rw [get_eq] at ho hn
    rw [typeIn_eq, jsonAt_one]
    rcases hv : receipt.get? "outcome" with _ | v
    · simp [hv] at hn
    · rw [hv, Option.getD_some] at ho hn
      cases v with
      | null => exact absurd rfl hn
      | obj fs => simp [isObj] at ho
      | bool b => cases b <;> rfl
      | _ => rfl
  by_cases hnull : receipt.get "outcome" = .null
  · rw [habsent hnull, hnull, Truth.or_true, Truth.and_some]
    simp [validEvidence, isObj]
  by_cases hobj : (receipt.get "outcome").isObj = true
  swap
  · have hobj : (receipt.get "outcome").isObj = false := by simpa using hobj
    simp only [hodd hobj hnull, Truth.any, List.cons_append, Truth.true_or, Truth.and_some,
      validEvidence, hobj, Bool.false_and, Bool.not_false, Bool.true_or]
  · obtain ⟨fs, hfs⟩ : ∃ fs, receipt.get "outcome" = .obj fs := by
      cases h : receipt.get "outcome" <;> simp_all [isObj]
    have hget : receipt.get? "outcome" = some (.obj fs) := by
      rw [get_eq] at hfs
      rcases hv : receipt.get? "outcome" with _ | v
      · simp [hv] at hfs
      · rw [hv, Option.getD_some] at hfs
        rw [hfs]
    have habs : absentOutcome receipt = some (Json.obj fs == .obj []) := by
      have hbraces : ((Json.obj fs).minify == "{}") = (Json.obj fs == .obj []) := by
        rw [Bool.eq_iff_iff, beq_iff_eq, beq_iff_eq, minify_obj_eq_braces]
        exact ⟨fun h => by rw [h], fun h => Json.obj.inj h⟩
      have hname : ["missing", "null"].contains (nameOr (some (Json.obj fs))) = false := rfl
      simp only [absentOutcome, typeIn_eq, jsonExtract, jsonAt_one, hget, Option.map_some,
        Option.getD_some, extracted, Value.eq_text, hbraces, hname, Truth.or_some, Bool.false_or]
    have hname : ["object", "missing", "null"].contains (nameOr (some (Json.obj fs))) = true := rfl
    have hne : (Json.obj fs == .null) = false := rfl
    simp only [habs, outcomeTypes, meaningfulOutcome, typeIn_eq, jsonAt_one, jsonAt_two, hget, hfs,
      hname, hne, bool_types, bool_types_two, nullable_types, text_types, true_type, false_type,
      List.map_cons, List.map_nil, List.cons_append, List.nil_append, Truth.any, Truth.not_some,
      Truth.or_some, Truth.and_some, validEvidence, isObj, List.all_cons, List.all_nil,
      Bool.true_and, Bool.not_true, Bool.false_or, Bool.or_false, Bool.and_true]
    generalize (Json.obj fs == .obj []) = empty
    cases empty with
    | true => simp only [Bool.or_true, Bool.and_true]
    | false =>
      simp only [Bool.not_and, Bool.not_false, Bool.true_and, Bool.or_false, Bool.or_assoc]
      ac_rfl

/-! Both readings of a row. -/

/-- The three steps of the reader after the evidence is read: its status, the tool it names, the
state of the row. -/
def underStatus (e : Json) : Json :=
  if e.get "status" == .str "unknown" || e.get "status" == .str "uncertain" then
    (e.set "ok" (.bool false)).set "uncertain" (.bool true)
  else if e.get "status" == .str "running" || e.get "status" == .str "queued" ||
      e.get "status" == .str "waiting" then e.set "pending" (.bool true)
  else e

def underTool (invocation e : Json) : Json :=
  if invocation.get "tool_id" == .str "external_agent" then
    match invocation.get? "action" with
    | some action =>
      if (e.set "tool" (.str "external_agent")).has "action" then
        e.set "tool" (.str "external_agent")
      else (e.set "tool" (.str "external_agent")).set "action" action
    | none => e.set "tool" (.str "external_agent")
  else e

def underState (state : EffectState) (e : Json) : Json :=
  if (state == .prepared || state == .unknown) && e.get "side_effecting" != .bool false then
    e.set "uncertain" (.bool true)
  else e

theorem historicalEvidence_eq {receipt : Json} {state : EffectState} {kind : String}
    (h : finalTransport receipt state kind = none) :
    historicalEvidence receipt state kind =
      underState state (underTool (receipt.getD "invocation" (.obj []))
        (underStatus (readEvidence receipt (originalTool receipt "legacy_tool")))) := by
  unfold historicalEvidence
  rw [h]
  rfl

theorem underTool_get (invocation e : Json) {k : String} (h₁ : k ≠ "tool") (h₂ : k ≠ "action") :
    (underTool invocation e).get k = e.get k := by
  unfold underTool
  split
  · split
    · split <;> simp [get_eq, h₁, h₂]
    · simp [get_eq, h₁]
  · rfl

theorem underStatus_side_effecting (e : Json) :
    (underStatus e).get "side_effecting" = e.get "side_effecting" := by
  unfold underStatus
  split
  · simp [get_eq]
  split
  · simp [get_eq]
  · rfl

theorem underStatus_flags (e : Json) :
    ((underStatus e).get "pending" == .bool true || (underStatus e).get "uncertain" == .bool true) =
      (e.get "pending" == .bool true || among (e.get "status") ["running", "queued", "waiting"] ||
        e.get "uncertain" == .bool true || among (e.get "status") ["unknown", "uncertain"]) := by
  have hunknown : among (e.get "status") ["unknown", "uncertain"] =
      (e.get "status" == .str "unknown" || e.get "status" == .str "uncertain") := by
    simp only [among, List.any_cons, List.any_nil, Bool.or_false]
  have hwaiting : among (e.get "status") ["running", "queued", "waiting"] =
      (e.get "status" == .str "running" || e.get "status" == .str "queued" ||
        e.get "status" == .str "waiting") := by
    simp only [among, List.any_cons, List.any_nil, Bool.or_false, Bool.or_assoc]
  unfold underStatus
  rw [hunknown, hwaiting]
  split
  · rename_i h
    rw [h]
    simp [get_eq]
  · rename_i h
    rw [Bool.eq_false_iff.mpr h, Bool.or_false]
    split
    · rename_i h'
      rw [h']
      simp [get_eq]
    · rename_i h'
      rw [Bool.eq_false_iff.mpr h', Bool.or_false]

theorem underState_flags (state : EffectState) (e : Json) :
    (((underState state e).get "pending" == .bool true ||
        (underState state e).get "uncertain" == .bool true) &&
      (underState state e).get "side_effecting" != .bool false) =
    ((e.get "pending" == .bool true || e.get "uncertain" == .bool true ||
      (state == .prepared || state == .unknown)) && e.get "side_effecting" != .bool false) := by
  unfold underState
  split
  · rename_i h
    obtain ⟨hs, hrole⟩ := (Bool.and_eq_true _ _).mp h
    have hkept : (e.set "uncertain" (.bool true)).get "side_effecting" = e.get "side_effecting" := by
      simp [get_eq]
    have hset : (e.set "uncertain" (.bool true)).get "uncertain" = .bool true := by simp [get_eq]
    rw [hkept, hrole, hset, hs]
    simp
  · rename_i h
    cases hs : (state == .prepared || state == .unknown) with
    | true =>
      rw [hs, Bool.true_and] at h
      rw [Bool.eq_false_iff.mpr h, Bool.and_false, Bool.and_false]
    | false => rw [Bool.or_false]

/-- What the reader makes of the evidence it has read, under the row's state. -/
theorem reported_eq (r : EffectRow) (h : finalTransport r.receiptJson.value r.state r.kind = none) :
    let e := readEvidence r.receiptJson.value (originalTool r.receiptJson.value "legacy_tool")
    r.reported = ((e.get "pending" == .bool true ||
        among (e.get "status") ["running", "queued", "waiting"] ||
        e.get "uncertain" == .bool true || among (e.get "status") ["unknown", "uncertain"] ||
        (r.state == .prepared || r.state == .unknown)) &&
      e.get "side_effecting" != .bool false) := by
  intro e
  rw [EffectRow.reported, EffectRow.evidence, historicalEvidence_eq h, underState_flags,
    underTool_get _ _ (by decide) (by decide), underTool_get _ _ (by decide) (by decide),
    underTool_get _ _ (by decide) (by decide), underStatus_side_effecting, underStatus_flags]

theorem holds_flag (o : Json) (k : String) (hb : (o.get? k).all isBool = true) :
    ((((o.get? k).map extracted).getD .null).eq (.int 1)).holds = (o.get k == .bool true) := by
  rw [get_eq]
  generalize o.get? k = v at hb
  rcases v with _ | v
  · rfl
  · cases v with
    | bool b => cases b <;> rfl
    | _ => cases hb

theorem holds_isIn_null (names : List String) :
    (Value.isIn .null (names.map .text)).holds = false := by
  induction names with
  | nil => rfl
  | cons n names ih =>
    simp only [Value.isIn, List.map_cons, Truth.any, Value.eq] at ih ⊢
    rw [Truth.holds_or, ih]
    rfl

theorem holds_status (o : Json) (names : List String)
    (hs : (o.get "status" == .null || (o.get "status").isStr) = true) :
    (Value.isIn (((o.get? "status").map extracted).getD .null) (names.map .text)).holds =
      among (o.get "status") names := by
  rw [get_eq] at hs ⊢
  generalize o.get? "status" = v at hs
  have hnull : among .null names = false := by simp [among]
  rcases v with _ | v
  · exact (holds_isIn_null names).trans hnull.symm
  · cases v with
    | str s =>
      simp only [Option.map_some, Option.getD_some, extracted, Value.isIn_text, Truth.holds_some,
        among, List.contains_eq_any_beq]
      refine congrArg (List.any names) (funext fun n => ?_)
      by_cases h : s = n
      · simp [h]
      · simp [h]
    | null => exact (holds_isIn_null names).trans hnull.symm
    | _ => cases hs

theorem number_eq (j : Json) (k l : String) {d n : Int} (hd : d ≠ n) :
    ((jsonExtract j [k, l]).coalesce (.int d)).eq (.int n) = some (((j.get k).get l).equals n) := by
  have hdn : (d == n) = false := by simpa using hd
  rw [jsonExtract, jsonAt_two, get_eq (j.get k) l]
  generalize (j.get k).get? l = v
  rcases v with _ | v
  · exact congrArg some hdn
  · cases v with
    | null => exact congrArg some hdn
    | bool b => cases b <;> rfl
    | _ => rfl

theorem neverDispatchedClause_eq (r : EffectRow) :
    neverDispatchedClause r = some r.neverDispatched := by
  simp only [neverDispatchedClause, Truth.all, number_eq _ _ _ (show (0 : Int) ≠ 1 by decide),
    number_eq _ _ _ (show (1 : Int) ≠ 0 by decide), Truth.and_some, EffectRow.neverDispatched,
    Bool.and_true, Bool.and_assoc]

/-- The selection in terms of what the stored outcome holds. -/
theorem unresolvedClause_holds (r : EffectRow) {u : Bool}
    (hu : unknownHistoricalOutcomeClause r = some u) :
    (unresolvedClause true true r).holds =
      (((r.receiptJson.value.get "outcome").get "side_effecting" != .bool false || u) &&
      ((((jsonExtract r.receiptJson.value ["outcome", "pending"]).eq (.int 1)).holds ||
        ((jsonExtract r.receiptJson.value ["outcome", "status"]).isIn
          (["running", "queued", "waiting"].map .text)).holds ||
        ((jsonExtract r.receiptJson.value ["outcome", "uncertain"]).eq (.int 1)).holds ||
        ((jsonExtract r.receiptJson.value ["outcome", "status"]).isIn
          (["unknown", "uncertain"].map .text)).holds ||
        (r.state == .prepared || r.state == .unknown) || u)) &&
      !r.neverDispatched && !r.aggregates) := by
  have hrole : lifecycleRoleClause r =
      some ((r.receiptJson.value.get "outcome").get "side_effecting" != .bool false) := by
    have hname := false_type (r.receiptJson.value.get "outcome") "side_effecting"
    rw [lifecycleRoleClause, typeOr_eq, jsonAt_two, Value.eq_text, Truth.not_some, bne, ← hname]
    simp only [List.contains_cons, List.contains_nil, Bool.or_false]
  have hcomposition : (Truth.or (some (r.kind != "code_composition"))
      (((jsonExtract r.receiptJson.value ["composition", "version"]).coalesce (.int 0)).eq
        (.int 1)).not).holds = !r.aggregates := by
    rw [number_eq _ _ _ (show (0 : Int) ≠ 1 by decide), Truth.not_some, Truth.or_some,
      Truth.holds_some, EffectRow.aggregates, Bool.not_and, bne]
  simp only [unresolvedClause, hu, hrole, neverDispatchedClause_eq, if_true,
    Truth.not_some, Truth.or_some, Truth.holds_all, Truth.holds_and, Truth.holds_any,
    Truth.holds_or, Truth.holds_some, List.all_cons, List.all_nil, List.any_cons, List.any_nil,
    List.cons_append, List.nil_append, hcomposition, Bool.and_true, Bool.or_false,
    Bool.and_assoc, Bool.or_assoc]

end WorkRepository

open WorkRepository Sql

theorem finalTransport_some {receipt : Json} {state : EffectState} {kind : String} {b : Bool}
    (h : finalTransport receipt state kind = some b) :
    receipt.get "outcome" = .null ∧ (state == .prepared || state == .unknown) = false := by
  unfold finalTransport at h
  dsimp only at h
  split at h
  · cases h
  rename_i hdomain
  have hmissing : receipt.get "outcome" = .null := by
    simp only [List.any_cons, Bool.or_eq_true, not_or] at hdomain
    have hhas := hdomain.2.1
    rw [has_eq] at hhas
    rw [get_eq, Option.not_isSome_iff_eq_none.mp hhas]
    rfl
  refine ⟨hmissing, ?_⟩
  split at h
  · rename_i ha
    simp only [Bool.and_eq_true, beq_iff_eq] at ha
    rw [ha.1.1.1.1.1.1]
    rfl
  split at h
  · rename_i ha
    simp only [Bool.and_eq_true, beq_iff_eq] at ha
    rw [ha.1.1.1.1.1.1]
    rfl
  · cases h

/-- An outcome that cannot be believed is read as an uncertain side effect. -/
theorem readEvidence_unbelieved {receipt : Json} (tool : String)
    (hv : validEvidence (receipt.get "outcome") = false)
    (ha : (receipt.get "outcome" == .null || receipt.get "outcome" == .obj []) = false) :
    (readEvidence receipt tool).get "uncertain" = .bool true ∧
      (readEvidence receipt tool).get "side_effecting" = .bool true := by
  unfold readEvidence
  dsimp only
  rw [hv, ha]
  simp only [Bool.false_eq_true, if_false]
  split <;> simp [get_eq]

/-- The SQL fence selects exactly the rows the reader reports as a pending or uncertain side
effect, and those whose outcome is unknown, apart from intents that were never dispatched and
compositions, both by numeric comparison. -/
theorem unresolved_clause_agrees (r : EffectRow) :
    (WorkRepository.unresolvedClause true true r).holds = true ↔
      (r.reported = true ∨ r.outcomeUnknown = true) ∧ r.neverDispatched = false ∧
        r.aggregates = false := by
  have hu := unknownHistoricalOutcomeClause_eq r
  have hsplit (a b c : Bool) : (a && !b && !c) = true ↔ a = true ∧ b = false ∧ c = false := by
    cases a <;> cases b <;> cases c <;> decide
  rw [unresolvedClause_holds r hu, hsplit]
  refine and_congr_left fun _ => ?_
  simp only [jsonExtract, jsonAt_two]
  generalize ho : r.receiptJson.value.get "outcome" = o
  cases hf : finalTransport r.receiptJson.value r.state r.kind with
  | some b =>
    -- an exact transport receipt has no outcome, and both sides leave it out
    obtain ⟨hnull, hstate⟩ := finalTransport_some hf
    obtain rfl := hnull.symm.trans ho
    have hreported : r.reported = false := by
      rw [EffectRow.reported, EffectRow.evidence, historicalEvidence, hf]
      cases b <;> rfl
    have hunknown : r.outcomeUnknown = false := by
      rw [EffectRow.outcomeUnknown, hf]
      exact Bool.and_false _
    have hmissing (names : List String) : (Value.isIn (((Json.null.get? "status").map extracted).getD
        .null) (names.map .text)).holds = false := holds_isIn_null names
    rw [hreported, hunknown, hstate, hmissing, hmissing]
    simp [get?, fields, Value.eq]
  | none =>
    by_cases habsent : (o == .null || o == .obj []) = true
    · have hunknown : r.outcomeUnknown = true := by
        rw [EffectRow.outcomeUnknown, hf, ho, habsent]
        rfl
      simp only [hunknown, habsent, Option.isSome_none, Bool.not_false, Bool.or_true, Bool.and_self,
        or_true]
    have hpresent := Bool.eq_false_iff.mpr habsent
    have hknown : r.outcomeUnknown = false := by
      rw [EffectRow.outcomeUnknown, ho, hpresent, Bool.false_and]
    have hreported := reported_eq r hf
    dsimp only at hreported
    rw [hknown, hreported, hpresent]
    by_cases hv : validEvidence o = true
    · have hread : readEvidence r.receiptJson.value (originalTool r.receiptJson.value "legacy_tool") =
          o := by
        rw [readEvidence, ho, if_pos hv]
      have htyped := hv
      simp only [validEvidence, Bool.and_eq_true, List.all_cons] at htyped
      obtain ⟨⟨⟨-, -, hpending, huncertain, -⟩, hstatus⟩, -⟩ := htyped
      rw [hread, holds_flag o "pending" hpending, holds_flag o "uncertain" huncertain,
        holds_status o _ hstatus, holds_status o _ hstatus, hv]
      simp only [Option.isSome_none, Bool.not_false, Bool.not_true, Bool.or_false, Bool.and_false,
        Bool.false_eq_true, or_false]
      rw [Bool.and_comm]
    · have hv := Bool.eq_false_iff.mpr hv
      obtain ⟨huncertain, hrole⟩ := readEvidence_unbelieved
        (originalTool r.receiptJson.value "legacy_tool") (ho ▸ hv) (ho ▸ hpresent)
      rw [huncertain, hrole, hv]
      simp

/-- A prepared call with an uncertain outcome, its flag a number instead of a boolean. -/
def zeroFlag : EffectRow :=
  { effectKey := "k", workId := "w", kind := "tool", state := .prepared, created := 0, updated := 0
    receiptJson := ⟨.obj [("invocation", .obj [("version", .int 1), ("dispatch_started", .int 0)]),
      ("outcome", .obj [("ok", .bool false), ("uncertain", .bool true),
        ("side_effecting", .bool true)])], false⟩ }

/-- The fence leaves out a row whose flag is the number zero, not only `false`. -/
theorem unresolved_zero_flag : ¬ ∀ r : EffectRow,
    (WorkRepository.unresolvedClause true true r).holds = true ↔
      (r.reported = true ∨ r.outcomeUnknown = true) ∧
      ¬(r.state = .prepared ∧
        ((r.receiptJson.value.get "invocation").get "version").equals 1 = true ∧
        (r.receiptJson.value.get "invocation").get "dispatch_started" = .bool false) ∧
      r.aggregates = false := by
  intro h
  have hleft : (WorkRepository.unresolvedClause true true zeroFlag).holds = false := by
    decide +kernel
  have hright : zeroFlag.reported = true ∧
      (zeroFlag.receiptJson.value.get "invocation").get "dispatch_started" ≠ .bool false ∧
      zeroFlag.aggregates = false := by decide +kernel
  have := (h zeroFlag).mpr ⟨.inl hright.1, fun hs => hright.2.1 hs.2.2, hright.2.2⟩
  rw [hleft] at this
  cases this

end Yuki

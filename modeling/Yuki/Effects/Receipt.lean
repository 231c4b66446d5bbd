import Yuki.Effects.Outcome
import Yuki.Protocol.Objects
import Yuki.Runtime.Budget

/-! The writers of one effect receipt. Each reads the stored text in a snapshot
`seen` and replaces it only where the text is still the same. -/

namespace Yuki

open Json

namespace Json

/-- `v == 1`. -/
def isOne (v : Json) : Bool :=
  v.pyEq (.int 1)

/-- `n + 1` on a decoded value. -/
def succ (v : Json) : Except Err Json :=
  match v with
  | .int n => .ok (.int (n + 1))
  | .bool b => .ok (.int (if b then 2 else 1))
  | .real m e =>
    if 0 ≤ e then .ok (shortReal (e.toNat + 1) (m * 10 ^ e.toNat + 1) 0)
    else .ok (shortReal (-e).toNat (m + 10 ^ (-e).toNat) e)
  | _ => .error (.runtime "TypeError")

/-- `json_extract(…) + 1`: a text counts by its leading digits, null stays null. -/
def sqlSucc (v : Json) : Json :=
  match v with
  | .null => .null
  | .str s => .int (digitsValue (readDigits (skipBlank s.toList)).1 + 1)
  | v => v.succ.toOption.getD (.int 1)

/-- The members of a dictionary given one by one, those without a value left out. -/
def ofFields (fs : List (String × Option Json)) : Json :=
  .obj (fs.filterMap fun f => f.2.map fun v => (f.1, v))

end Json

/-- `invocation` of a receipt. -/
def invocationOf (receipt : Json) : Json :=
  receipt.get "invocation"

def versionOne (invocation : Json) : Bool :=
  invocation.isObj && (invocation.get "version").isOne

/-- The stored marker that a version-1 invocation was dispatched. -/
def EffectRow.dispatched (e : EffectRow) : Bool :=
  versionOne (invocationOf e.receiptJson.value) &&
    ((invocationOf e.receiptJson.value).get "dispatch_started").truthy

/-- The row a reader finds under a key, for the Work it asks for. -/
def Db.effectOf (db : Db) (key identity : String) : Option EffectRow :=
  (db.effects.get? key).filter fun e => e.workId == identity

/-- Whether a receipt is that of a call made from inside another effect. -/
def childCall (receipt : Json) : Bool :=
  ((Sql.jsonExtract receipt ["invocation", "version"]).eq (.int 1)).holds &&
    ((Sql.jsonType receipt ["invocation", "parent_effect_key"]).eq (.text "text")).holds

/-- Whether two receipts agree on indexed members of their invocations, none of them null. -/
def sameChild (names : List String) (a b : Json) : Bool :=
  childCall a && childCall b && ("parent_effect_key" :: names).all fun name =>
    ((Sql.jsonExtract a ["invocation", name]).eq (Sql.jsonExtract b ["invocation", name])).holds

/-- The unique indexes on the ordinal and on the engine call of a child. -/
def Db.childClash (db : Db) (key workId : String) (receipt : Json) : Bool :=
  db.effects.rows.any fun e => e.effectKey != key && e.workId == workId &&
    (sameChild ["child_ordinal"] e.receiptJson.value receipt ||
      sameChild ["feed_index", "engine_call_id"] e.receiptJson.value receipt)

/-- `UPDATE runtime_work_effects` of the row under `key`. -/
def Db.setEffect (db : Db) (key : String) (state : EffectState) (receipt : JsonText) (now : Time) :
    Db :=
  { db with
    effects := db.effects.update (fun e => e.effectKey = key) fun e =>
      { e with state := state, receiptJson := receipt, updated := now } }

namespace WorkRepository

/-- A live Work the lease may act for. -/
def liveWork (db : Db) (lease : WorkLease) (identity : String) : Option WorkRow :=
  (leased db lease identity).filter fun w => !w.state.terminal

/-- `prepare_effect`: `false` means that an intent already exists. -/
def prepareEffect (db : Db) (now : Time) (lease : WorkLease) (identity key kind : String)
    (outcome invocation composition : Option Json) : Except Err (Db × Bool) := do
  let receipt := encodeJson (ofFields [("outcome", outcome), ("invocation", invocation),
    ("composition", composition)])
  assertLease db now lease
  let _ ← expect (liveWork db lease identity) (.workConflict "work_effect_obsolete")
  if key ∈ db.effects.rows.map EffectRow.effectKey then return (db, false)
  else do
    require (db.childClash key identity receipt.value = false) (.runtime "IntegrityError")
    return ({ db with
      effects := db.effects.insert ⟨key, identity, kind, .prepared, receipt, now, now⟩ }, true)

/-- The marker `admit_dispatch` writes. -/
def dispatchReceipt (receipt : Json) (charge : Bool) : Except Err Json := do
  let invocation := invocationOf receipt
  let revision ← expect (invocation.get? "revision") (.runtime "KeyError")
  let next ← revision.succ
  return receipt.set "invocation" (((invocation.set "dispatch_started" (.bool true)).set
    "budget_admitted" (.bool charge)).set "revision" next)

/-- The usage of one admitted dispatch: the shared budget and the Work's own counter. -/
def chargeDispatch (db : Db) (now : Time) (lease : WorkLease) (identity : String) :
    Except Err Db := do
  let charged ← Yuki.charge db identity 0 1
  let _ ← expect (liveWork charged lease identity) (.workConflict "work_effect_obsolete")
  return { charged with
    works := charged.works.update (fun w => w.id = identity) fun w =>
      { w with toolCalls := w.toolCalls + 1, updated := now } }

/-- `admit_dispatch`: the dispatch marker and all usage commit together. -/
def admitDispatch (seen db : Db) (now : Time) (lease : WorkLease) (identity key : String)
    (charge : Bool) : Except Err (Db × Bool) := do
  let original ← expect (seen.effectOf key identity) (.workConflict "invocation_intent_missing")
  let receipt := original.receiptJson.value
  let invocation := invocationOf receipt
  require (versionOne invocation) (.workConflict "invocation_metadata_missing")
  if (invocation.get "dispatch_started").truthy || original.state ≠ .prepared then
    return (db, false)
  else do
    let marked ← dispatchReceipt receipt charge
    assertLease db now lease
    if (db.effectOf key identity).any fun e =>
        e.state == .prepared && e.receiptJson == original.receiptJson then do
      let written := db.setEffect key .prepared (encodeJson marked) now
      if charge then do
        let charged ← chargeDispatch written now lease identity
        return (charged, true)
      else return (written, true)
    else return (db, false)

/-- The rows `bind_domain_receipt` may update. -/
def bindable (db : Db) (identity reference : String) (e : EffectRow) : Bool :=
  let at_ (name : String) := Sql.jsonExtract e.receiptJson.value ["invocation", name]
  e.workId == identity &&
    ((db.works.get? e.workId).any fun w => !w.state.terminal &&
      db.conversationGeneration w.conversationId == some w.generation) &&
    ((at_ "version").eq (.int 1)).holds &&
    ((at_ "dispatch_started").eq (.int 1)).holds &&
    ((at_ "original_domain_ref").isNull ||
      ((at_ "original_domain_ref").eq (.text reference)).holds)

/-- The receipt with its domain reference bound. -/
def boundReceipt (receipt : JsonText) (reference : String) : JsonText :=
  let revision := (Sql.jsonAt receipt.value ["invocation", "revision"]).getD .null
  (receipt.jsonSet ["invocation", "original_domain_ref"] (.str reference)).jsonSet
    ["invocation", "revision"] revision.sqlSucc

/-- `bind_domain_receipt`. -/
def bindDomainReceipt (db : Db) (now : Time) (identity key reference : String) :
    Except Err (Db × Unit) := do
  require (reference ≠ "" ∧ reference.length ≤ 256) (.workConflict "effect_domain_reference_invalid")
  let row ← expect ((db.effects.get? key).filter (bindable db identity reference))
    (.workConflict "effect_domain_reference_conflict")
  return (db.setEffect key row.state (boundReceipt row.receiptJson reference) now, ())

/-- `CodeSnapshotBinding`, less what only the snapshot's own header repeats. -/
structure CodeSnapshotBinding where
  workId : String
  operationId : String
  conversationId : String
  generation : Int
  sourceRevision : Int
  privacyGeneration : Int
  engineDigest : String
  apiRevision : String
  dumpFormat : String

/-- What a child intent must say of itself before it may be published. -/
def childIntent (child : Json) (identity parentKey : String) : Bool :=
  let whole (v : Json) : Bool := match v with
    | .int _ => true
    | .bool _ => true
    | _ => false
  (child.get "version").isOne && child.get "parent_effect_key" == .str parentKey &&
    child.get "owner_execution_id" == .str identity &&
    child.get "dispatch_started" == .bool false && child.get "budget_admitted" == .bool false &&
    whole (child.get "child_ordinal") && whole (child.get "feed_index") &&
    (child.get "engine_call_id").isStr

/-- The receipt of a child that has not run. -/
def childReceipt (child tool : Json) (sideEffecting : Bool) : Json :=
  .obj [("invocation", child), ("outcome", .obj [("tool", tool),
    ("side_effecting", .bool sideEffecting), ("ok", .bool false), ("pending", .bool false),
    ("uncertain", .bool false), ("executed", .bool false)])]

/-- The members a later snapshot may not change. -/
def compositionBound (saved composition : Json) (binding : CodeSnapshotBinding) : Bool :=
  (["script_id", "media_privacy_generation", "code_ref", "inputs_ref", "api_revision",
      "engine_digest", "dump_format"].all fun field =>
    (composition.get? field).all fun v => v.pyEq (saved.get field)) &&
  saved.get "api_revision" == .str binding.apiRevision &&
  saved.get "engine_digest" == .str binding.engineDigest &&
  saved.get "dump_format" == .str binding.dumpFormat

/-- A prepared snapshot that decodes under its binding; `decode` reads the object's file. -/
def snapshotPrepared (preparedRefs : List String) (decode : String → Except Err Unit) (ref : Json)
    (code : String) : Except Err Unit :=
  match ref with
  | .str digest => do
    require (digest ∈ preparedRefs) (.workConflict code)
    decode digest
  | _ => .error (.workConflict code)

/-- A program's output, when it has one. -/
def outputPrepared (preparedRefs : List String) (decode : String → Except Err Unit) (ref : Json) :
    Except Err Unit :=
  if ref = .null then .ok ()
  else snapshotPrepared preparedRefs decode ref "code_output_not_prepared"

/-- The row of a child intent. -/
def childRow (child : Json) (identity : String) (sideEffecting : Bool) (now : Time) :
    Except Err EffectRow := do
  let tool ← expect (child.get? "tool_id") (.runtime "KeyError")
  match child.get "operation_id" with
  | .str key =>
    return ⟨key, identity, "tool", .prepared, encodeJson (childReceipt child tool sideEffecting),
      now, now⟩
  | _ => throw (.runtime "KeyError")

def insertIntent (db : Db) : Option EffectRow → Except Err Db
  | none => .ok db
  | some row => do
    require (row.effectKey ∉ db.effects.rows.map EffectRow.effectKey ∧
        db.childClash row.effectKey row.workId row.receiptJson.value = false)
      (.workConflict "code_child_identity_conflict")
    return { db with effects := db.effects.insert row }

/-- What the read phase of a code boundary prepares. -/
structure CodeBoundary where
  original : EffectRow
  parentReceipt : Json
  child : Option EffectRow

/-- The read phase of `publish_code_boundary`. -/
def readCodeBoundary (seen : Db) (now : Time) (lease : WorkLease) (identity parentKey : String)
    (expectedRevision : Int) (composition : Json) (child : Option Json)
    (preparedRefs : List String) (decode : String → Except Err Unit)
    (binding : CodeSnapshotBinding) (sideEffecting : Bool) : Except Err CodeBoundary := do
  require (binding.workId = identity ∧ binding.operationId = parentKey ∧
      binding.conversationId = lease.conversationId ∧ binding.generation = lease.generation ∧
      child.all fun c => childIntent c identity parentKey)
    (.workConflict "code_boundary_identity_conflict")
  let original ← expect (seen.effectOf parentKey identity) (.workConflict "code_composition_closed")
  require (original.kind = "code_composition" ∧
      (original.state = .prepared ∨ original.state = .unknown))
    (.workConflict "code_composition_closed")
  let previous := original.receiptJson.value
  let saved := previous.getD "composition" (.obj [])
  require saved.isObj (.runtime "AttributeError")
  require ((saved.get "version").isOne ∧ (saved.get "snapshot_revision").pyEq (.int expectedRevision))
    (.workConflict "code_checkpoint_conflict")
  require (compositionBound saved composition binding)
    (.workConflict "code_composition_binding_conflict")
  let next := ((saved.merge composition).set "version" (.int 1)).set "snapshot_revision"
    (.int (expectedRevision + 1))
  snapshotPrepared preparedRefs decode (next.get "snapshot_ref") "code_snapshot_not_prepared"
  outputPrepared preparedRefs decode (next.get "output_ref")
  let row ← child.mapM fun c => childRow c identity sideEffecting now
  return ⟨original, previous.set "composition" next, row⟩

/-- `publish_code_boundary`: a program checkpoint and at most one child intent.
`prepared` are the object rows its publication holds. -/
def publishCodeBoundary (seen db : Db) (now : Time) (lease : WorkLease)
    (identity parentKey : String) (expectedRevision : Int) (composition : Json)
    (child : Option Json) (policy : StoragePolicy) (preparedRefs : List String)
    (decode : String → Except Err Unit) (prepared : List ObjectRow)
    (binding : CodeSnapshotBinding) (sideEffecting : Bool) : Except Err (Db × Bool) := do
  let boundary ← readCodeBoundary seen now lease identity parentKey expectedRevision composition
    child preparedRefs decode binding sideEffecting
  assertLease db now lease
  let source ← expect (db.conversations.get? lease.conversationId)
    (.workConflict "code_boundary_authority_changed")
  require (source.generation = binding.generation ∧
      source.promptSourceRevision = binding.sourceRevision ∧
      db.privacyGeneration = binding.privacyGeneration)
    (.workConflict "code_boundary_authority_changed")
  let _ ← expect (liveWork db lease identity) (.workConflict "work_effect_obsolete")
  let current ← expect ((db.effectOf parentKey identity).filter fun e =>
      (e.state == .prepared || e.state == .unknown) &&
        e.receiptJson == boundary.original.receiptJson)
    (.workConflict "code_checkpoint_conflict")
  let written := db.setEffect parentKey current.state (encodeJson boundary.parentReceipt) now
  let inserted ← insertIntent written boundary.child
  let published ← publishRefs inserted now policy identity prepared
  return (published, true)

end WorkRepository

end Yuki

import Yuki.Effects.Receipt

/-! Late receipts: resolving the effects of an owned run, and recording an outcome. -/

namespace Yuki

open Json

namespace WorkRepository

/-- `_lifecycle_role_clause`: only an explicit false proves an observation. -/
def lifecycleRole (receipt : Json) : Sql.Truth :=
  ((Sql.typeOr receipt ["outcome", "side_effecting"]).eq (.text "false")).not

/-- Which rows a run's receipt is about: one accepted effect, or those that name the run. -/
def runTarget (runId : String) (effectKey : Option String) (e : EffectRow) : Bool :=
  match effectKey with
  | some key => e.effectKey == key && e.state == .accepted
  | none => ((Sql.jsonExtract e.receiptJson.value ["outcome", "run_id"]).eq (.text runId)).holds

/-- The outcome one row takes over from a finished run, when the row is such a call. -/
def resolvedOutcome (receipt outcome : Json) (runId : String) (effectKey requestId : Option String) :
    Except Err (Option Json) := do
  let previous := receipt.getD "outcome" (.obj [])
  let invocation := receipt.getD "invocation" (.obj [])
  require (previous.isObj ∧ invocation.isObj) (.runtime "AttributeError")
  let name := previous.getD "tool" (.str "")
  let called ← isExecution name (previous.getD "action" (invocation.get "action"))
  let execution ← onlyIf (!called) true (name.hashedIn ["environment_packages", "run_python"])
  let mismatched := effectKey.isSome && (!(previous.get "request_id").pyEq (ofStr? requestId) ||
    !(previous.get "run_id" == .null || previous.get "run_id" == .str runId) || !execution)
  let controlling := ["terminal_write", "terminal_control", "cancel_code_run"].any fun n =>
    name == .str n
  if mismatched || (!execution && !controlling) then return none
  else do
    let merged := (((previous.merge outcome).set "side_effecting" (.bool true)).set "tool"
      (previous.getD "tool" (outcome.get "tool"))).set "mutation_committed"
      (previous.get "mutation_committed")
    return if merged.pyEq previous then none else some merged

/-- The replacement of one row's receipt, when the text changes. -/
def resolvedRow (outcome : Json) (runId : String) (effectKey requestId : Option String)
    (e : EffectRow) : Except Err (Option (String × JsonText × JsonText)) := do
  let merged ← resolvedOutcome e.receiptJson.value outcome runId effectKey requestId
  return merged.bind fun m =>
    let encoded := encodeJson (e.receiptJson.value.set "outcome" m)
    if encoded = e.receiptJson then none else some (e.effectKey, e.receiptJson, encoded)

/-- The read phase of `resolve_run_effects`, in key order. -/
def resolvePrepared (seen : Db) (seenAt : Time) (lease : WorkLease) (identity runId : String)
    (outcome : Json) (effectKey requestId : Option String) :
    Except Err (List (String × JsonText × JsonText)) := do
  if !executionFinished outcome || outcome.get "run_id" != .str runId then return []
  else if effectKey.isSome && (requestId.isNone ||
      !(outcome.get "request_id").pyEq (ofStr? requestId)) then return []
  else do
    require (lease.workId = none ∨ lease.workId = some identity)
      (.workConflict "work_effect_obsolete")
    assertLease seen seenAt lease
    let _ ← expect (leased seen lease identity) (.workConflict "work_effect_obsolete")
    let rows := (seen.effects.rows.filter fun e => e.workId == identity &&
      runTarget runId effectKey e && (lifecycleRole e.receiptJson.value).holds).mergeSort
        fun a b => decide (a.effectKey ≤ b.effectKey)
    let found ← rows.mapM (resolvedRow outcome runId effectKey requestId)
    return found.filterMap id

/-- One prepared replacement, written only over the text it was prepared from. -/
def resolveOne (lease : WorkLease) (identity : String) (now : Time) (db : Db)
    (p : String × JsonText × JsonText) : Db :=
  match (db.effectOf p.1 identity).filter fun e => e.receiptJson == p.2.1 with
  | some e => if (leased db lease identity).isSome then db.setEffect p.1 e.state p.2.2 now else db
  | none => db

/-- One writer of `resolve_run_effects`: the `page`-th 128 prepared replacements. -/
def resolveRunEffects (seen : Db) (seenAt : Time) (db : Db) (now : Time) (lease : WorkLease)
    (identity runId : String) (outcome : Json) (effectKey requestId : Option String) (page : Nat) :
    Except Err (Db × Unit) := do
  let prepared ← resolvePrepared seen seenAt lease identity runId outcome effectKey requestId
  let batch := (prepared.drop (128 * page)).take 128
  if batch = [] then return (db, ())
  else do
    assertLease db now lease
    return (batch.foldl (resolveOne lease identity now) db, ())

/-- The caller's receipt under the metadata the host owns. -/
def hostField (previous : Json) (field : String) (candidate : Json) : Except Err Json :=
  match previous.get? field with
  | some owned => do
    require ((candidate.get? field).all fun v => v.pyEq owned)
      (.workConflict "work_effect_metadata_conflict")
    return candidate.set field owned
  | none => .ok candidate

/-- The typed reading of a result that came without an outcome. -/
def resultEvidence (candidate existing : Json) : Except Err Json := do
  require existing.isObj (.runtime "AttributeError")
  let original ← normalizeLegacyResult (candidate.get "result") "legacy"
    (existing.getD "tool" (.str "legacy_tool"))
  executionEvidence original original.toolName
    (existing.getD "side_effecting" (.bool (original.mutationCommitted != some false))) (.obj [])

/-- `uncertain` of an outcome merged with the stored one. -/
def mergedUncertain (state : EffectState) (existing evidence : Json) : Json :=
  let role := existing.getD "side_effecting" (.bool true)
  if state == .unknown && role.truthy then role else evidence.getD "uncertain" (.bool false)

/-- The outcome a receipt without one takes from its result and the stored outcome. -/
def completeOutcome (state : EffectState) (existing candidate : Json) : Except Err Json := do
  if candidate.has "outcome" then return candidate
  else do
    let evidence ← onlyIf (candidate.has "result") none
      ((resultEvidence candidate existing).map some)
    if existing.truthy then do
      require existing.isObj (.runtime "AttributeError")
      let added := evidence.getD (.obj [])
      return candidate.set "outcome"
        ((existing.merge added).set "uncertain" (mergedUncertain state existing added))
    else return evidence.elim candidate fun e => candidate.set "outcome" e

/-- What an accepted receipt means, whatever shape its outcome was stored in. -/
def canonical (value : Json) : Json :=
  let outcome := historicalEvidence value .accepted "tool"
  (value.erase "outcome").set "outcome" (.obj
    (["ok", "pending", "uncertain", "executed", "status", "run_id"].map fun k =>
      (k, outcome.get k)))

/-- Every member of `before` still holds in `after`. -/
def extends_ (after before : Json) : Bool :=
  before.fields.all fun f => (after.get f.1).pyEq (before.get f.1)

/-- The next revision of a version-1 invocation. -/
def bumpInvocation (candidate : Json) : Except Err Json :=
  let metadata := candidate.get "invocation"
  if versionOne metadata then do
    let revision ← expect (metadata.get? "revision") (.runtime "KeyError")
    let next ← revision.succ
    return candidate.set "invocation" (metadata.set "revision" next)
  else .ok candidate

/-- Whether the stored row already says what the caller reports; otherwise it may be
rewritten, unless the two are in conflict. -/
def settled (existing : EffectRow) (state : EffectState) (candidate : Json) : Except Err Bool :=
  match existing.state with
  | .accepted =>
    if state = .unknown then .ok true
    else do
      let before := canonical existing.receiptJson.value
      let after := canonical candidate
      require (state = .accepted ∧ extends_ after before)
        (.workConflict "work_effect_receipt_conflict")
      return after.pyEq before
  | .failed => do
    require (state = .failed ∧ candidate.pyEq existing.receiptJson.value)
      (.workConflict "work_effect_receipt_conflict")
    return true
  | _ => .ok false

/-- The source a receipt of media was read from. -/
structure MediaSource where
  conversationId : String
  generation : Int
  privacyGeneration : Int

/-- The checks on the history and the media a receipt was read from. -/
def sourcesCurrent (db : Db) (candidate : Json) (media : Option MediaSource) : Except Err Unit := do
  let history := candidate.getD "outcome" (.obj [])
  require history.isObj (.runtime "AttributeError")
  require ((history.get "source_event_ids").truthy = false ∨
      (history.get "source_privacy_generation").pyEq (.int db.privacyGeneration))
    (.workConflict "work_effect_history_source_changed")
  require (media.all fun m => m.privacyGeneration == db.privacyGeneration &&
      db.conversationGeneration m.conversationId == some m.generation)
    (.workConflict "work_effect_media_source_changed")

/-- What the read phase of `record_effect` decides: `none` when nothing is to be written. -/
def prepareRecord (existing : EffectRow) (state : EffectState) (receipt : Json) :
    Except Err (Option Json) := do
  let previous := existing.receiptJson.value
  let identified ← hostField previous "invocation" (.obj receipt.fields)
  let composed ← hostField previous "composition" identified
  let candidate ← completeOutcome state (previous.getD "outcome" (.obj [])) composed
  let done ← settled existing state candidate
  if done then return none
  else do
    let bumped ← bumpInvocation candidate
    return some bumped

/-- One round of `record_effect`: `true` when the call returns, `false` when another
writer came first and the call reads again. -/
def recordEffect (seen db : Db) (now : Time) (key : String) (state : EffectState) (receipt : Json)
    (policy : StoragePolicy) (prepared : List ObjectRow) (media : Option MediaSource) :
    Except Err (Db × Bool) := do
  require (state ≠ .prepared) (.valueError "invalid_work_effect_state")
  let existing ← expect (seen.effects.get? key) (.workConflict "work_effect_receipt_conflict")
  match ← prepareRecord existing state receipt with
  | none => return (db, true)
  | some candidate => do
    sourcesCurrent db candidate media
    match (db.effects.get? key).filter fun e =>
        e.state == existing.state && e.receiptJson == existing.receiptJson with
    | none => return (db, false)
    | some e => do
      require (db.childClash key e.workId (encodeJson candidate).value = false)
        (.runtime "IntegrityError")
      let written := db.setEffect key state (encodeJson candidate) now
      let published ← onlyIf (!prepared.isEmpty) written
        (publishRefs written now policy existing.workId prepared)
      return (published, true)

end WorkRepository

end Yuki

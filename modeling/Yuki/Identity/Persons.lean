import Mathlib.Data.List.Sort
import Yuki.Lib.Attempt
import Yuki.Lib.Json
import Yuki.Lib.Table

/-! Persons, the roots they are merged into, and the settings that a merge moves. -/

namespace Yuki.Identity

structure Person where
  id : String
  mergedInto : Option String := none
  displayName : String := ""
  isSuperuser : Bool := false
  revision : Nat := 1
  updatedAt : Int := 0
deriving DecidableEq, Repr

/-- The exact owner of a setting. -/
inductive ConfigScope
  | all
  | user (personId : String)
  | group (spaceId : String)
deriving DecidableEq, Repr

/-- A setting: its key, and the columns that no query selects by. -/
structure ConfigRow (κ ν : Type) where
  id : Nat
  scope : ConfigScope
  key : κ
  version : Nat := 1
  columns : ν
deriving DecidableEq, Repr

structure RuntimeColumns where
  valueJson : Json
  valueType : String
  applyMode : String
  createdAt : Int
  updatedAt : Int
  updatedBy : String
deriving DecidableEq, Repr

structure PluginColumns where
  valueJson : Json
  updatedAt : Int
deriving DecidableEq, Repr

abbrev RuntimeConfigOverride := ConfigRow String RuntimeColumns

/-- Its key is the plugin and the key under it. -/
abbrev PluginConfigValue := ConfigRow (String × String) PluginColumns

/-- The unique indexes: one row for a key in a scope. -/
def OnePerKey {κ ν : Type} (rows : List (ConfigRow κ ν)) : Prop :=
  ∀ r ∈ rows, ∀ r' ∈ rows, r.scope = r'.scope → r.key = r'.key → r = r'

instance {κ ν : Type} [DecidableEq κ] [DecidableEq ν] (rows : List (ConfigRow κ ν)) :
    Decidable (OnePerKey rows) :=
  inferInstanceAs (Decidable (∀ r ∈ rows, ∀ r' ∈ rows, _))

structure ConfigTable (κ ν : Type) where
  table : Table (ConfigRow.id : ConfigRow κ ν → Nat)
  unique : OnePerKey table.rows

structure PersonAlias where
  id : Nat
  personId : String
  spaceId : Option String := none
  aliasName : String
  aliasType : String
  firstSeenAt : Int
  lastSeenAt : Int
deriving DecidableEq, Repr

def OneAlias (rows : List PersonAlias) : Prop :=
  ∀ r ∈ rows, ∀ r' ∈ rows, r.personId = r'.personId → r.spaceId = r'.spaceId →
    r.aliasName = r'.aliasName → r = r'

instance (rows : List PersonAlias) : Decidable (OneAlias rows) :=
  inferInstanceAs (Decidable (∀ r ∈ rows, ∀ r' ∈ rows, _))

structure AliasTable where
  table : Table PersonAlias.id
  unique : OneAlias table.rows

structure AdminOperationEvent where
  actorUserId : String
  capability : String
  operation : String
  targetType : String
  targetId : String
  beforeJson : Json
  afterJson : Json
  createdAt : Int
deriving DecidableEq, Repr

structure IdentityStore where
  persons : Table Person.id
  aliases : AliasTable
  runtimeConfig : ConfigTable String RuntimeColumns
  pluginConfig : ConfigTable (String × String) PluginColumns
  adminEvents : List AdminOperationEvent

inductive IdentityError
  | missingCanonicalOwner | mergePreparationChanged | canonicalOwnerMismatch | integrity
deriving DecidableEq, Repr

/-! Roots and families. -/

/-- `merged_into_person_id` of a person. -/
def parentOf (persons : Table Person.id) (id : String) : Option String :=
  (persons.get? id).bind (·.mergedInto)

/-- `coalesce(person.merged_into_person_id, person.id)`. -/
def Person.root (person : Person) : String :=
  person.mergedInto.getD person.id

def personRootId (persons : Table Person.id) (id : String) : Option String :=
  (persons.get? id).map Person.root

def currentPersonId (persons : Table Person.id) (id : String) : Except IdentityError String :=
  expect (personRootId persons id) .missingCanonicalOwner

/-- `id = root OR merged_into_person_id = root`. -/
def Person.inFamily (person : Person) (root : String) : Bool :=
  decide (person.id = root ∨ person.mergedInto = some root)

/-- The ids of a family, in order. -/
def familyOf (persons : Table Person.id) (root : String) : List String :=
  ((persons.rows.filter (·.inFamily root)).map (·.id)).insertionSort fun a b => a ≤ b

def personFamilyIds (persons : Table Person.id) (id : String) :
    Except IdentityError (List String) := do
  let root ← currentPersonId persons id
  return familyOf persons root

/-- Equal roots; two missing persons have none. -/
def samePersonId (persons : Table Person.id) (left right : String) : Bool :=
  match personRootId persons left, personRootId persons right with
  | some l, some r => decide (l = r)
  | _, _ => false

def currentPersonIds (persons : Table Person.id) (ids : List String) : List (String × String) :=
  (persons.rows.filter fun person => decide (person.id ∈ ids)).map fun person =>
    (person.id, person.root)

/-- `tuple(sorted(roots.items()))`. -/
def sortedRoots (persons : Table Person.id) (ids : List String) : List (String × String) :=
  (currentPersonIds persons ids).insertionSort fun a b => a.1 ≤ b.1

/-- The names and flags of two persons, by id. -/
def peopleOf (persons : Table Person.id) (ids : List String) : List (String × String × Bool) :=
  ((persons.rows.filter fun person => decide (person.id ∈ ids)).map fun person =>
    (person.id, person.displayName, person.isSuperuser)).insertionSort fun a b => a.1 ≤ b.1

/-- The alias of a person outside spaces, where the name is not empty. -/
def aliasOf (aliases : AliasTable) (personId name : String) : Option Nat :=
  if name = "" then none
  else
    (aliases.table.rows.find? fun row =>
      decide (row.personId = personId ∧ row.spaceId = none ∧ row.aliasName = name)).map (·.id)

/-! Settings. -/

/-- What tells the two tables of settings apart: their names, which part of a key the target's
settings take, and how a row is shown to the audit. -/
structure ConfigModel (κ ν : Type) where
  tableName : String
  group : κ → String
  snapshot : ConfigRow κ ν → Json

section

variable {κ ν : Type}

/-- The settings of one person. -/
def ConfigTable.ofUser (t : ConfigTable κ ν) (personId : String) : List (ConfigRow κ ν) :=
  t.table.rows.filter fun row => decide (row.scope = .user personId)

/-- The target has a setting under the same key, or of the same plugin. -/
def ConfigTable.taken (t : ConfigTable κ ν) (group : κ → String) (targetId : String) (key : κ) :
    Bool :=
  (t.ofUser targetId).any fun row => decide (group row.key = group key)

/-- The ids and versions of the source's settings that the target's leave behind, or take. -/
def ConfigTable.losing (t : ConfigTable κ ν) (group : κ → String) (sourceId targetId : String) :
    List (ConfigRow κ ν) :=
  (t.ofUser sourceId).filter fun row => t.taken group targetId row.key

def ConfigTable.inherited (t : ConfigTable κ ν) (group : κ → String) (sourceId targetId : String) :
    List (ConfigRow κ ν) :=
  (t.ofUser sourceId).filter fun row => !t.taken group targetId row.key

/-- One row of `_merge_config_selection`: the source's versions, and all of a row to discard. -/
structure SelectedConfig (κ ν : Type) where
  id : Nat
  scope : ConfigScope
  key : κ
  version : Option Nat
  row : Option (ConfigRow κ ν)
deriving DecidableEq, Repr

/-- `_merge_config_selection`, in the order of the ids. The source casts every column to text. -/
def ConfigTable.mergeSelection (t : ConfigTable κ ν) (sourceId targetId : String)
    (discarded : List Nat) : List (SelectedConfig κ ν) :=
  ((t.table.rows.filter fun row =>
      decide (row.scope = .user sourceId ∨ row.scope = .user targetId)).map fun row =>
    ⟨row.id, row.scope, row.key,
      if row.scope = .user sourceId then some row.version else none,
      if row.id ∈ discarded then some row else none⟩).insertionSort fun a b => a.id ≤ b.id

/-- The plan for one table of settings: the rows read, and the ids and versions that move to the
target or go. -/
structure ConfigPlan (κ ν : Type) where
  selection : List (SelectedConfig κ ν) := []
  inherited : List (Nat × Nat) := []
  losing : List (Nat × Nat) := []

def ConfigPlan.discarded (plan : ConfigPlan κ ν) : List Nat :=
  plan.losing.map (·.1)

def idVersion (row : ConfigRow κ ν) : Nat × Nat :=
  (row.id, row.version)

def ConfigTable.plan (t : ConfigTable κ ν) (model : ConfigModel κ ν) (sourceId targetId : String) :
    ConfigPlan κ ν :=
  let losing := (t.losing model.group sourceId targetId).map idVersion
  { selection := t.mergeSelection sourceId targetId (losing.map (·.1))
    inherited := (t.inherited model.group sourceId targetId).map idVersion
    losing := losing }

/-- The record of a row in the audit. -/
def ConfigModel.record (model : ConfigModel κ ν) (sourceId targetId : String)
    (row : ConfigRow κ ν) : List (String × Json) :=
  [("table", .str model.tableName), ("id", .int row.id), ("version", .int row.version),
    ("from", .str sourceId), ("to", .str targetId)]

def ConfigModel.moved (model : ConfigModel κ ν) (t : ConfigTable κ ν)
    (sourceId targetId : String) : List Json :=
  (t.inherited model.group sourceId targetId).map fun row =>
    .obj (model.record sourceId targetId row)

def ConfigModel.discarded (model : ConfigModel κ ν) (t : ConfigTable κ ν)
    (sourceId targetId : String) : List Json :=
  (t.losing model.group sourceId targetId).map fun row =>
    .obj (model.record sourceId targetId row ++ [("row", model.snapshot row)])

variable [DecidableEq κ] [DecidableEq ν]

/-- The comparison under the writer: the same ids, and each row as it was read. -/
def ConfigTable.asPlanned (t : ConfigTable κ ν) (sourceId targetId : String)
    (plan : ConfigPlan κ ν) : Bool :=
  let current := t.mergeSelection sourceId targetId plan.discarded
  decide (current.map (·.id) = plan.selection.map (·.id)) &&
    current.all fun row =>
      (plan.selection.find? fun wanted => decide (wanted.id = row.id)).any fun wanted =>
        decide (row = wanted)

/-- The rows of the source that a statement names by id and version. -/
def named (sourceId : String) (ids : List (Nat × Nat)) (row : ConfigRow κ ν) : Bool :=
  decide (idVersion row ∈ ids ∧ row.scope = .user sourceId)

/-- The settings that move: every one of them, without a conflict. -/
def ConfigTable.move (t : ConfigTable κ ν) (sourceId targetId : String) (ids : List (Nat × Nat)) :
    Except IdentityError (ConfigTable κ ν) :=
  let table := t.table.update (named sourceId ids) fun row => { row with scope := .user targetId }
  if h : OnePerKey table.rows then
    if (t.table.rows.filter (named sourceId ids)).length = ids.length then .ok ⟨table, h⟩
    else .error .canonicalOwnerMismatch
  else .error .integrity

/-- The settings that go. -/
def ConfigTable.discard (t : ConfigTable κ ν) (sourceId : String) (ids : List (Nat × Nat)) :
    Except IdentityError (ConfigTable κ ν) :=
  if (t.table.rows.filter (named sourceId ids)).length = ids.length then
    .ok
      { table := t.table.delete (named sourceId ids)
        unique := fun r hr r' hr' =>
          t.unique r (List.mem_of_mem_filter hr) r' (List.mem_of_mem_filter hr') }
  else .error .canonicalOwnerMismatch

def ConfigTable.apply (t : ConfigTable κ ν) (sourceId targetId : String) (plan : ConfigPlan κ ν) :
    Except IdentityError (ConfigTable κ ν) := do
  let moved ← t.move sourceId targetId plan.inherited
  moved.discard sourceId plan.losing

end

/-! Merges. -/

structure PersonMergePreparation where
  roots : List (String × String)
  sourceId : String
  targetId : String
  members : List String := []
  people : List (String × String × Bool) := []
  sourceAlias : Option Nat := none
  runtime : ConfigPlan String RuntimeColumns := {}
  plugins : ConfigPlan (String × String) PluginColumns := {}
  beforeJson : Json := .obj []
  afterJson : Json := .obj []
  sourceName : String := ""
  targetName : String := ""
  targetSuperuser : Bool := false

/-- The two tables of settings, with the values of their rows redacted for the audit. -/
structure ConfigModels where
  runtime : ConfigModel String RuntimeColumns
  plugins : ConfigModel (String × String) PluginColumns

/-- `redact` is `redact_audit_value`. -/
def configModels (redact : Json → String → Json) : ConfigModels where
  runtime :=
    { tableName := "runtime_config_overrides"
      group := fun key => key
      snapshot := fun row => .obj
        [("id", .int row.id), ("config_key", .str row.key),
          ("value_json", redact row.columns.valueJson row.key),
          ("value_type", .str row.columns.valueType), ("apply_mode", .str row.columns.applyMode),
          ("version", .int row.version), ("created_at", .int row.columns.createdAt),
          ("updated_at", .int row.columns.updatedAt), ("updated_by", .str row.columns.updatedBy)] }
  plugins :=
    { tableName := "plugin_config_values"
      group := fun key => key.1
      snapshot := fun row => .obj
        [("id", .int row.id), ("plugin_id", .str row.key.1), ("key", .str row.key.2),
          ("value_json", redact row.columns.valueJson row.key.2), ("version", .int row.version),
          ("updated_at", .int row.columns.updatedAt)] }

variable (redact : Json → String → Json)

/-- The plan of a merge, read from one state. -/
def preparePersonMerge (db : IdentityStore) (sourcePersonId targetPersonId : String) :
    Except IdentityError PersonMergePreparation := do
  let sourceId ← currentPersonId db.persons sourcePersonId
  let targetId ← currentPersonId db.persons targetPersonId
  let roots := sortedRoots db.persons [sourcePersonId, targetPersonId]
  if sourceId = targetId then
    return { roots := roots, sourceId := sourceId, targetId := targetId }
  let source ← expect (db.persons.get? sourceId) .missingCanonicalOwner
  let target ← expect (db.persons.get? targetId) .missingCanonicalOwner
  let models := configModels redact
  let members := familyOf db.persons sourceId
  return {
    roots := roots
    sourceId := sourceId
    targetId := targetId
    members := members
    people := peopleOf db.persons [sourceId, targetId]
    sourceAlias := aliasOf db.aliases sourceId source.displayName
    runtime := db.runtimeConfig.plan models.runtime sourceId targetId
    plugins := db.pluginConfig.plan models.plugins sourceId targetId
    beforeJson := .obj
      [("source_person_id", .str sourceId), ("target_person_id", .str targetId),
        ("discarded_configurations",
          .arr (models.runtime.discarded db.runtimeConfig sourceId targetId ++
            models.plugins.discarded db.pluginConfig sourceId targetId))]
    afterJson := .obj
      [("person_ids", .arr (members.map .str)), ("person_id", .str targetId),
        ("configuration_moves",
          .arr (models.runtime.moved db.runtimeConfig sourceId targetId ++
            models.plugins.moved db.pluginConfig sourceId targetId))]
    sourceName := source.displayName
    targetName := if target.displayName = "" then source.displayName else target.displayName
    targetSuperuser := target.isSuperuser || source.isSuperuser }

/-- The family of the source moves under the target. -/
def joinFamilies (persons : Table Person.id) (sourceId targetId : String) (now : Int) :
    Table Person.id :=
  persons.update (·.inFamily sourceId) fun person =>
    { person with
      mergedInto := some targetId
      revision := person.revision + 1
      updatedAt := now }

def nameTarget (persons : Table Person.id) (prepared : PersonMergePreparation) (now : Int) :
    Table Person.id :=
  persons.update (fun person => decide (person.id = prepared.targetId)) fun person =>
    { person with
      displayName := prepared.targetName
      isSuperuser := prepared.targetSuperuser
      revision := person.revision + 1
      updatedAt := now }

/-- `session.add(PersonAliasModel(…))`, under the next id. -/
def AliasTable.add (t : AliasTable) (personId name : String) (now : Int) :
    Except IdentityError AliasTable :=
  let id := t.table.rows.foldl (fun id row => max id (row.id + 1)) 1
  let table := t.table.insert
    { id := id, personId := personId, aliasName := name, aliasType := "name", firstSeenAt := now
      lastSeenAt := now }
  if h : OneAlias table.rows then .ok ⟨table, h⟩ else .error .integrity

/-- The source keeps its name as an alias. -/
def keepName (aliases : AliasTable) (prepared : PersonMergePreparation) (found : Option Nat)
    (now : Int) : Except IdentityError AliasTable :=
  if prepared.sourceName ≠ "" ∧ found = none then
    aliases.add prepared.sourceId prepared.sourceName now
  else .ok aliases

/-- Rechecks what the plan was read from, then applies it: one transaction. -/
def mergePersons (db : IdentityStore) (sourcePersonId targetPersonId : String)
    (prepared : PersonMergePreparation) (now : Int) (actorId : String) :
    Except IdentityError (IdentityStore × String) := do
  let sourceId := prepared.sourceId
  let targetId := prepared.targetId
  require (sortedRoots db.persons [sourcePersonId, targetPersonId] = prepared.roots)
    .mergePreparationChanged
  if sourceId = targetId then return (db, targetId)
  let members ← personFamilyIds db.persons sourceId
  require (members = prepared.members) .mergePreparationChanged
  require (peopleOf db.persons [sourceId, targetId] = prepared.people) .mergePreparationChanged
  let sourceAlias := aliasOf db.aliases sourceId prepared.sourceName
  require (sourceAlias = prepared.sourceAlias) .mergePreparationChanged
  require (db.runtimeConfig.asPlanned sourceId targetId prepared.runtime = true)
    .mergePreparationChanged
  require (db.pluginConfig.asPlanned sourceId targetId prepared.plugins = true)
    .mergePreparationChanged
  let runtime ← db.runtimeConfig.apply sourceId targetId prepared.runtime
  let plugins ← db.pluginConfig.apply sourceId targetId prepared.plugins
  let aliases ← keepName db.aliases prepared sourceAlias now
  return (
    { persons := nameTarget (joinFamilies db.persons sourceId targetId now) prepared now
      aliases := aliases
      runtimeConfig := runtime
      pluginConfig := plugins
      adminEvents := db.adminEvents ++
        [{ actorUserId := actorId
           capability := "identity.person.merge"
           operation := "identity.person.merge"
           targetType := "person"
           targetId := targetId
           beforeJson := prepared.beforeJson
           afterJson := prepared.afterJson
           createdAt := now }] },
    targetId)

end Yuki.Identity

import Yuki.Runtime.Schema

/-! The metadata of private protocol objects and the references that own them. -/

namespace Yuki

/-- `WorkStorageRuntimeConfig`: the limits a publication checks. -/
structure StoragePolicy where
  objectMaxBytes : Int
  totalMaxBytes : Int

namespace Db

/-- `INSERT … ON CONFLICT DO NOTHING` of object rows. -/
def insertObjects (db : Db) (rows : List ObjectRow) : Db :=
  { db with objects := rows.foldl Table.insert db.objects }

/-- `runtime_protocol_usage`, which the triggers on the objects keep. -/
def protocolUsage (db : Db) : Int :=
  (db.objects.rows.map ObjectRow.byteSize).sum

end Db

/-- `publish_refs`: object rows come back to life and get their references. -/
def publishRefs (db : Db) (now : Time) (policy : StoragePolicy) (workId : String)
    (prepared : List ObjectRow) : Except Err Db := do
  let digests := prepared.map ObjectRow.sha256
  let added := prepared.filter fun o => o.sha256 ∉ db.objects.rows.map ObjectRow.sha256
  let inserted := db.insertObjects prepared
  require (added.all fun o => o.byteSize ≤ policy.objectMaxBytes)
    (.valueError "work_protocol_object_capacity")
  require (prepared = [] ∨ (db.works.get? workId).isSome) (.runtime "IntegrityError")
  require (added = [] ∨ inserted.protocolUsage ≤ policy.totalMaxBytes)
    (.valueError "work_protocol_storage_capacity")
  return { inserted with
    objects := inserted.objects.update (fun o => digests.contains o.sha256) fun o =>
      { o with preparedAt := now, deleting := false }
    refs := digests.foldl (fun refs digest => refs.insert ⟨workId, digest⟩) inserted.refs }

end Yuki

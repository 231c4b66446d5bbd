import Mathlib.Logic.Function.Basic
import Yuki.Protocol.Objects

/-! The file side of protocol objects: their preparation and publication, and the
cleanup that marks, unlinks and acknowledges what nobody references. -/

namespace Yuki

variable {γ : Type}

/-- The hash and the length of a content. -/
class Content (γ : Type) where
  hash : γ → String
  size : γ → Int

open Content

structure StoredFile (γ : Type) where
  content : γ
  modified : Time

/-- The files below the root, by digest. -/
abbrev Files (γ : Type) := String → Option (StoredFile γ)

/-- The fields of a `ProtocolStore` object. -/
structure ProtocolStore (γ : Type) where
  policy : StoragePolicy
  preparedRefs : List String := []
  preparedSizes : List (String × Int) := []
  preparedSources : List (String × γ) := []

namespace ProtocolStore

variable [Content γ]

/-- `_verify`; `known` tells whether the file's identity is the one verified before. -/
def verify (files : Files γ) (known : Bool) (digest : String) : Except Err Int :=
  match files digest with
  | none => .error (.runtime "FileNotFoundError")
  | some file =>
    if known || hash file.content == digest then .ok (size file.content)
    else .error (.valueError "work_protocol_object_corrupt")

/-- `_publish`; `room` tells whether the disk keeps its reserve. -/
def publish (policy : StoragePolicy) (files : Files γ) (now : Time) (known room : Bool)
    (digest : String) (content : γ) : Files γ × Except Err Int :=
  match files digest with
  | some _ => (files, verify files known digest)
  | none =>
    if policy.objectMaxBytes < size content then
      (files, .error (.valueError "work_protocol_object_capacity"))
    else if room = false then (files, .error (.valueError "work_protocol_storage_capacity"))
    else
      let written := Function.update files digest (some ⟨content, now⟩)
      (written, verify written known digest)

/-- A digest joins the prepared ones. -/
def prepare (s : ProtocolStore γ) (digest : String) (size : Int) (source : γ) : ProtocolStore γ :=
  { s with
    preparedRefs := s.preparedRefs.insert digest
    preparedSizes := (digest, size) :: s.preparedSizes
    preparedSources := (digest, source) :: s.preparedSources }

/-- `put_bytes`, its lock section included. -/
def putBytes (s : ProtocolStore γ) (files : Files γ) (now : Time) (known room : Bool)
    (content : γ) : ProtocolStore γ × Files γ :=
  let digest := hash content
  if s.preparedRefs.contains digest then (s.prepare digest (size content) content, files)
  else
    match publish s.policy files now known room digest content with
    | (written, .ok _) => (s.prepare digest (size content) content, written)
    | (written, .error _) => (s, written)

/-- `put_record`; a record encoded before is known by its digest and size. -/
def putRecord (s : ProtocolStore γ) (files : Files γ) (now : Time) (known room : Bool)
    (cached : Option (String × Int)) (content : γ) : ProtocolStore γ × Files γ :=
  match cached with
  | some (digest, size) => (s.prepare digest size content, files)
  | none => putBytes s files now known room content

/-- One digest of `_verify_prepared`. -/
def verifyPrepared (s : ProtocolStore γ) (files : Files γ) (now : Time) (known room : Bool)
    (digest : String) : Files γ × Except Err Unit :=
  let sized (size : Int) : Except Err Unit :=
    require (s.preparedSizes.lookup digest = some size) (.valueError "work_protocol_object_corrupt")
  match files digest with
  | some _ => (files, (verify files known digest).bind sized)
  | none =>
    match s.preparedSources.lookup digest with
    | none => (files, .error (.valueError "work_protocol_object_missing_source"))
    | some content =>
      if hash content ≠ digest then (files, .error (.valueError "work_protocol_object_corrupt"))
      else
        let published := publish s.policy files now known room digest content
        (published.1, published.2.bind fun _ => (verify published.1 known digest).bind sized)

/-- The rows `publication` yields: the prepared digests the Work does not own yet. -/
def preparedRows (s : ProtocolStore γ) (db : Db) (now : Time) (workId : String)
    (digests : List String) : List ObjectRow :=
  (digests.filter fun digest => (db.refs.get? (workId, digest)).isNone).map fun digest =>
    ⟨digest, (s.preparedSizes.lookup digest).getD 0, now, false⟩

/-- The end of `publication`. -/
def close (s : ProtocolStore γ) (published : Bool) : ProtocolStore γ :=
  if published then { policy := s.policy } else { s with preparedSources := [] }

end ProtocolStore

/-! Cleanup. -/

structure GcScan where
  cutoff : Time
  highWater : Time × String
  cursor : Option (Time × String) := none

namespace Cleanup

/-- `unowned`: no Work references the object. -/
def unowned (db : Db) (digest : String) : Bool :=
  !db.refs.rows.any fun r => r.sha256 == digest

/-- `_orphan_candidates` on the next paths of the directory listing. -/
def orphanCandidates [Content γ] (files : Files γ) (cutoff : Time) (paths : List String) :
    List ObjectRow :=
  paths.filterMap fun digest => (files digest).bind fun file =>
    if file.modified < cutoff then some ⟨digest, Content.size file.content, file.modified, true⟩
    else none

/-- `(prepared_at, sha256) <= key`. -/
def atMost (key other : Time × String) : Bool :=
  decide (key.1 < other.1) || (key.1 == other.1 && decide (key.2 ≤ other.2))

def rowKey (o : ObjectRow) : Time × String :=
  (o.preparedAt, o.sha256)

/-- The scan a page continues, or a new one up to the newest row. -/
def openScan (db : Db) (scan : Option GcScan) (deleting : Bool) (cutoff : Time) : Option GcScan :=
  match scan with
  | some s => some s
  | none =>
    let rows := db.objects.rows.filter fun o =>
      o.deleting == deleting && (deleting || decide (o.preparedAt < cutoff))
    (rows.mergeSort fun a b => atMost (rowKey b) (rowKey a)).head?.map fun high =>
      { cutoff := cutoff, highWater := rowKey high }

/-- The rows of a page of metadata. -/
def scannedRows (db : Db) (scan : GcScan) (deleting : Bool) : List ObjectRow :=
  let rows := db.objects.rows.filter fun o =>
    o.deleting == deleting && atMost (rowKey o) scan.highWater &&
      (deleting || decide (o.preparedAt < scan.cutoff)) &&
      scan.cursor.all fun cursor => !atMost (rowKey o) cursor
  (rows.mergeSort fun a b => atMost (rowKey a) (rowKey b)).take 64

/-- `_gc_page`: the scan afterwards, and the unowned rows of the page. -/
def gcPage (db : Db) (scan : Option GcScan) (deleting : Bool) (cutoff : Time) :
    Option GcScan × List ObjectRow :=
  match openScan db scan deleting cutoff with
  | none => (none, [])
  | some scan =>
    let page := scannedRows db scan deleting
    let cursor := (page.getLast?.map rowKey).or scan.cursor
    let next := if page.length < 64 ∨ cursor = some scan.highWater then none
      else some { scan with cursor := cursor }
    (next, page.filter fun o => unowned db o.sha256)

/-- The rows that stand as they were read, apart from `deleting` where it is not compared. -/
def frozen (rows : List ObjectRow) (o : ObjectRow) : Bool :=
  rows.any fun row =>
    o.sha256 == row.sha256 && o.preparedAt == row.preparedAt && o.byteSize == row.byteSize

/-- The rows that stand exactly as they were read. -/
def unchanged (rows : List ObjectRow) (o : ObjectRow) : Bool :=
  rows.any fun row => o == row

/-- The insertion of orphaned files that are still expired, as rows to delete. -/
def registerOrphans (db : Db) (cutoff : Time) (orphaned : List ObjectRow) : Db :=
  db.insertObjects (orphaned.filter fun o => decide (o.preparedAt < cutoff))

/-- Whether the first writer marks a row. -/
def marks (db : Db) (cutoff : Time) (candidates : List ObjectRow) (o : ObjectRow) : Bool :=
  unchanged candidates o && unowned db o.sha256 && (o.deleting || decide (o.preparedAt < cutoff))

/-- The first writer: unowned candidates are marked. Returns the marked rows. -/
def mark (db : Db) (cutoff : Time) (candidates : List ObjectRow) : Db × List ObjectRow :=
  ({ db with
      objects := db.objects.update (marks db cutoff candidates) fun o =>
        { o with deleting := true } },
    (db.objects.rows.filter (marks db cutoff candidates)).map fun o => { o with deleting := true })

/-- The rows still marked and unowned, read again under the file fence. -/
def stillMarked (db : Db) (selected : List ObjectRow) : List ObjectRow :=
  db.objects.rows.filter fun o => frozen selected o && o.deleting && unowned db o.sha256

/-- One file of `_unlink_objects`: the files, and whether the row counts as removed. -/
def unlinkObject [Content γ] (files : Files γ) (known : Bool) (row : ObjectRow) : Files γ × Bool :=
  match ProtocolStore.verify files known row.sha256 with
  | .ok size =>
    if size = row.byteSize then (Function.update files row.sha256 none, true) else (files, false)
  | .error e => (files, e == .runtime "FileNotFoundError")

/-- The second writer: the removed rows that are still marked and unowned go. -/
def acknowledge (db : Db) (removed : List ObjectRow) : Db :=
  { db with
    objects := db.objects.delete fun o => frozen removed o && o.deleting && unowned db o.sha256 }

end Cleanup

/-! The parties over one database. -/

/-- Who holds the file fence, and how far it has come. -/
inductive Fence
  | free
  | verifying (store : Nat) (workId : String) (done todo : List String)
  | prepared (store : Nat) (workId : String) (rows : List ObjectRow)
  | reading (pass : Nat) (selected : List ObjectRow)
  | unlinking (pass : Nat) (todo removed : List ObjectRow)

/-- How far a cleanup pass has come outside the fence. -/
inductive Pass
  | idle
  | discovered (cutoff : Time) (orphans : List ObjectRow)
  | orphaned (cutoff : Time) (rows : List ObjectRow)
  | paging (cutoff : Time)
  | pagingLive (cutoff : Time) (found : List ObjectRow)
  | paged (candidates : List ObjectRow)
  | marked (selected : List ObjectRow)
  | fenced
  | removed (rows : List ObjectRow)

/-- The database, the files, the fence, and the state of every store object and cleanup pass. -/
structure Storage (γ : Type) where
  db : Db
  files : Files γ
  fence : Fence := .free
  stores : Nat → ProtocolStore γ
  passes : Nat → Pass := fun _ => .idle
  scans : Bool → Option GcScan := fun _ => none

namespace Storage

def setStore (s : Storage γ) (n : Nat) (store : ProtocolStore γ) : Storage γ :=
  { s with stores := Function.update s.stores n store }

def setPass (s : Storage γ) (p : Nat) (pass : Pass) : Storage γ :=
  { s with passes := Function.update s.passes p pass }

end Storage

open ProtocolStore Cleanup in
/-- One lock section, file operation or transaction. -/
inductive StorageStep [Content γ] : Storage γ → Storage γ → Prop
  /-- A digest that is prepared already needs no lock section. -/
  | putBytes {s : Storage γ} (n : Nat) (now : Time) (known room : Bool) (content : γ)
      (store : ProtocolStore γ) (files : Files γ) :
      s.fence = .free ∨ (s.stores n).preparedRefs.contains (Content.hash content) = true →
      putBytes (s.stores n) s.files now known room content = (store, files) →
      StorageStep s { s.setStore n store with files := files }
  | putRecord {s : Storage γ} (n : Nat) (now : Time) (known room : Bool)
      (cached : Option (String × Int)) (content : γ) (store : ProtocolStore γ) (files : Files γ) :
      s.fence = .free ∨ cached.isSome = true ∨
        (s.stores n).preparedRefs.contains (Content.hash content) = true →
      putRecord (s.stores n) s.files now known room cached content = (store, files) →
      StorageStep s { s.setStore n store with files := files }
  | openPublication {s : Storage γ} (n : Nat) (workId : String) : s.fence = .free →
      StorageStep s { s with
        fence := .verifying n workId [] ((s.stores n).preparedRefs.mergeSort fun a b => a ≤ b) }
  | verifyNext {s : Storage γ} {n : Nat} {workId digest : String} {done todo : List String}
      (now : Time) (known room : Bool) (files : Files γ) :
      s.fence = .verifying n workId done (digest :: todo) →
      verifyPrepared (s.stores n) s.files now known room digest = (files, .ok ()) →
      StorageStep s { s with
        files := files
        fence := .verifying n workId (done ++ [digest]) todo }
  | verifyFails {s : Storage γ} {n : Nat} {workId digest : String} {done todo : List String}
      (now : Time) (known room : Bool) (files : Files γ) (e : Err) :
      s.fence = .verifying n workId done (digest :: todo) →
      verifyPrepared (s.stores n) s.files now known room digest = (files, .error e) →
      StorageStep s { s.setStore n ((s.stores n).close false) with files := files, fence := .free }
  | readOwned {s : Storage γ} {n : Nat} {workId : String} {done : List String} (now : Time) :
      s.fence = .verifying n workId done [] →
      StorageStep s { s with
        fence := .prepared n workId (preparedRows (s.stores n) s.db now workId done) }
  /-- The transaction of a publication; what else it writes concerns neither objects nor refs. -/
  | publishRefs {s : Storage γ} {n : Nat} {workId : String} {rows : List ObjectRow}
      (before after db : Db) (now : Time) (policy : StoragePolicy) (owner : String) :
      s.fence = .prepared n workId rows →
      before.objects = s.db.objects → before.refs = s.db.refs →
      publishRefs before now policy owner rows = .ok after →
      db.objects = after.objects → db.refs = after.refs →
      StorageStep s { s with db := db }
  | closePrepared {s : Storage γ} {n : Nat} {workId : String} {rows : List ObjectRow}
      (published : Bool) : s.fence = .prepared n workId rows →
      StorageStep s { s.setStore n ((s.stores n).close published) with fence := .free }
  | closeVerifying {s : Storage γ} {n : Nat} {workId : String} {done todo : List String} :
      s.fence = .verifying n workId done todo →
      StorageStep s { s.setStore n ((s.stores n).close false) with fence := .free }
  /-- Any other transaction: it leaves the objects alone and adds no reference. -/
  | transaction {s : Storage γ} (db : Db) : db.objects = s.db.objects →
      (∀ r ∈ db.refs.rows, r ∈ s.db.refs.rows) → StorageStep s { s with db := db }
  | discover {s : Storage γ} (p : Nat) (cutoff : Time) (paths : List String) :
      s.passes p = .idle →
      StorageStep s (s.setPass p (.discovered cutoff (orphanCandidates s.files cutoff paths)))
  | readRegistered {s : Storage γ} {p : Nat} {cutoff : Time} {orphans : List ObjectRow} :
      s.passes p = .discovered cutoff orphans →
      StorageStep s (s.setPass p (.orphaned cutoff
        (orphans.filter fun o => (s.db.objects.get? o.sha256).isNone)))
  | registerOrphans {s : Storage γ} {p : Nat} {cutoff : Time} {rows : List ObjectRow}
      (current : Time) : s.passes p = .orphaned cutoff rows →
      StorageStep s { s.setPass p (.paging cutoff) with db := registerOrphans s.db current rows }
  | pageMarked {s : Storage γ} {p : Nat} {cutoff : Time} (scan : Option GcScan)
      (rows : List ObjectRow) : s.passes p = .paging cutoff →
      gcPage s.db (s.scans true) true cutoff = (scan, rows) →
      StorageStep s { s.setPass p (.pagingLive cutoff rows) with
        scans := Function.update s.scans true scan }
  | pageLive {s : Storage γ} {p : Nat} {cutoff : Time} {found : List ObjectRow}
      (scan : Option GcScan) (rows : List ObjectRow) : s.passes p = .pagingLive cutoff found →
      gcPage s.db (s.scans false) false cutoff = (scan, rows) →
      StorageStep s { s.setPass p (.paged (found ++ rows)) with
        scans := Function.update s.scans false scan }
  | mark {s : Storage γ} {p : Nat} {candidates : List ObjectRow} (current : Time) (db : Db)
      (selected : List ObjectRow) : s.passes p = .paged candidates →
      mark s.db current candidates = (db, selected) →
      StorageStep s { s.setPass p (.marked selected) with db := db }
  | fence {s : Storage γ} {p : Nat} {selected : List ObjectRow} : s.passes p = .marked selected →
      s.fence = .free → StorageStep s { s.setPass p .fenced with fence := .reading p selected }
  | readMarked {s : Storage γ} {p : Nat} {selected : List ObjectRow} :
      s.fence = .reading p selected →
      StorageStep s { s with fence := .unlinking p (stillMarked s.db selected) [] }
  | unlinkNext {s : Storage γ} {p : Nat} {row : ObjectRow} {todo removed : List ObjectRow}
      (known gone : Bool) (files : Files γ) : s.fence = .unlinking p (row :: todo) removed →
      unlinkObject s.files known row = (files, gone) →
      StorageStep s { s with
        files := files
        fence := .unlinking p todo (if gone then removed ++ [row] else removed) }
  | release {s : Storage γ} {p : Nat} {todo removed : List ObjectRow} :
      s.fence = .unlinking p todo removed →
      StorageStep s { s.setPass p (.removed removed) with fence := .free }
  | acknowledge {s : Storage γ} {p : Nat} {rows : List ObjectRow} : s.passes p = .removed rows →
      StorageStep s { s.setPass p .idle with db := acknowledge s.db rows }
  /-- A pass that finds nothing to do, or fails, outside the fence and within it. -/
  | abandon {s : Storage γ} (p : Nat) : s.passes p ≠ .fenced → StorageStep s (s.setPass p .idle)
  | abandonReading {s : Storage γ} {p : Nat} {selected : List ObjectRow} :
      s.fence = .reading p selected →
      StorageStep s { s.setPass p .idle with fence := .free }

end Yuki

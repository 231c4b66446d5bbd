import Yuki.Protocol.Store

/-! No interleaving of publications and cleanup passes takes away a referenced
object: the two barriers, the database's and the file fence, are related by one invariant. -/

namespace Yuki

variable {γ : Type} [Content γ]

open Content

/-- Every file holds the content its digest names. -/
def Files.Intact (files : Files γ) : Prop :=
  ∀ digest file, files digest = some file → hash file.content = digest

/-- A reference has its row, not marked, and its file with the right content. -/
def Storage.Referenced (s : Storage γ) (r : RefRow) : Prop :=
  (∃ o, s.db.objects.get? r.sha256 = some o ∧ o.deleting = false) ∧
    ∃ file, s.files r.sha256 = some file ∧ hash file.content = r.sha256

/-- What the holder of the fence knows about the files and the references. -/
def Storage.Fenced (s : Storage γ) : Fence → Prop
  | .verifying _ _ done _ => ∀ digest ∈ done, s.files digest ≠ none
  | .prepared _ _ rows => ∀ row ∈ rows, s.files row.sha256 ≠ none
  | .unlinking _ todo _ => ∀ row ∈ todo, ∀ r ∈ s.db.refs.rows, r.sha256 ≠ row.sha256
  | _ => True

/-- The invariant of all parties. -/
structure Storage.Sound (s : Storage γ) : Prop where
  intact : s.files.Intact
  alive : ∀ r ∈ s.db.refs.rows, ∃ o, s.db.objects.get? r.sha256 = some o ∧ o.deleting = false
  present : ∀ r ∈ s.db.refs.rows, s.files r.sha256 ≠ none
  fenced : s.Fenced s.fence

/-- Files only come, with the content their digest names. -/
structure Files.Grown (files written : Files γ) : Prop where
  kept : ∀ digest, files digest ≠ none → written digest ≠ none
  intact : files.Intact → written.Intact

namespace Files.Grown

variable {files written later : Files γ}

theorem refl (files : Files γ) : files.Grown files :=
  ⟨fun _ h => h, fun h => h⟩

theorem trans (h : files.Grown written) (h' : written.Grown later) : files.Grown later :=
  ⟨fun digest hd => h'.kept digest (h.kept digest hd), fun hi => h'.intact (h.intact hi)⟩

theorem write (files : Files γ) (now : Time) {digest : String} {content : γ}
    (h : hash content = digest) :
    files.Grown (Function.update files digest (some ⟨content, now⟩)) := by
  constructor
  · intro other ho
    by_cases he : other = digest
    · simp [he]
    · simpa [Function.update_of_ne he] using ho
  · intro hi other file hf
    by_cases he : other = digest
    · subst he
      rw [Function.update_self] at hf
      cases hf
      exact h
    · rw [Function.update_of_ne he] at hf
      exact hi other file hf

end Files.Grown

namespace ProtocolStore

theorem publish_grown (policy : StoragePolicy) (files : Files γ) (now : Time) (known room : Bool)
    (digest : String) {content : γ} (h : hash content = digest) :
    files.Grown (publish policy files now known room digest content).1 := by
  unfold publish
  split
  · exact .refl files
  · split
    · exact .refl files
    · split
      · exact .refl files
      · exact .write files now h

theorem verify_present {files : Files γ} {known : Bool} {digest : String} {size : Int}
    (h : verify files known digest = .ok size) : files digest ≠ none := by
  intro hn
  simp [verify, hn] at h

theorem putBytes_grown {s store : ProtocolStore γ} {files written : Files γ} {now : Time}
    {known room : Bool} {content : γ}
    (h : putBytes s files now known room content = (store, written)) : files.Grown written := by
  have hp := publish_grown s.policy files now known room (hash content) rfl
  unfold putBytes at h
  dsimp only at h
  split at h
  · cases h
    exact .refl files
  · split at h <;> rename_i heq <;> rw [heq] at hp <;> cases h <;> exact hp

theorem putRecord_grown {s store : ProtocolStore γ} {files written : Files γ} {now : Time}
    {known room : Bool} {cached : Option (String × Int)} {content : γ}
    (h : putRecord s files now known room cached content = (store, written)) :
    files.Grown written := by
  cases cached with
  | none => exact putBytes_grown h
  | some entry =>
    cases h
    exact .refl files

/-- Verifying a prepared digest writes its file at most; on success the file is there. -/
theorem verifyPrepared_grown {s : ProtocolStore γ} {files written : Files γ} {now : Time}
    {known room : Bool} {digest : String} {r : Except Err Unit}
    (h : verifyPrepared s files now known room digest = (written, r)) :
    files.Grown written ∧ (r = .ok () → written digest ≠ none) := by
  unfold verifyPrepared at h
  dsimp only at h
  split at h
  · next file hf =>
    cases h
    exact ⟨.refl files, fun _ => by simp [hf]⟩
  · split at h
    · cases h
      exact ⟨.refl files, by simp⟩
    · next content _ =>
      split at h
      · cases h
        exact ⟨.refl files, by simp⟩
      · next hc =>
        have hg := publish_grown s.policy files now known room digest (not_not.mp hc)
        cases h
        refine ⟨hg, fun hr => ?_⟩
        obtain ⟨size, _, hr⟩ := bind_eq_ok.mp hr
        obtain ⟨size', hv, _⟩ := bind_eq_ok.mp hr
        exact verify_present hv

end ProtocolStore

namespace Db

theorem get?_insertObjects (db : Db) (rows : List ObjectRow) {digest : String} {o : ObjectRow}
    (h : db.objects.get? digest = some o) : (db.insertObjects rows).objects.get? digest = some o := by
  unfold insertObjects
  dsimp only
  generalize db.objects = objects at h
  induction rows generalizing objects with
  | nil => exact h
  | cons row rest ih => exact ih _ (Table.get?_insert_of_some h)

theorem insertObjects_isSome (db : Db) {rows : List ObjectRow} {row : ObjectRow}
    (h : row ∈ rows) : ∃ o, (db.insertObjects rows).objects.get? row.sha256 = some o := by
  unfold insertObjects
  dsimp only
  generalize db.objects = objects
  induction rows generalizing objects with
  | nil => cases h
  | cons first rest ih =>
    rcases List.mem_cons.mp h with rfl | h
    · have hs : ∃ o, (objects.insert row).get? row.sha256 = some o := by
        rw [Table.get?_isSome, Table.keys_insert]
        exact .inr rfl
      obtain ⟨o, ho⟩ := hs
      exact ⟨o, get?_insertObjects { db with objects := objects.insert row } rest ho⟩
    · exact ih h _

theorem foldl_insert_refs (refs : Table RefRow.key) (workId : String) (digests : List String)
    {r : RefRow}
    (h : r ∈ (digests.foldl (fun refs digest => refs.insert ⟨workId, digest⟩) refs).rows) :
    r ∈ refs.rows ∨ r.sha256 ∈ digests := by
  induction digests generalizing refs with
  | nil => exact .inl h
  | cons digest rest ih =>
    rcases ih _ h with h | h
    · rcases Table.mem_insert.mp h with h | ⟨rfl, _⟩
      · exact .inl h
      · exact .inr List.mem_cons_self
    · exact .inr (List.mem_cons_of_mem _ h)

end Db

/-- The rows of a publication are alive, and no other row changes. -/
theorem publishRefs_alive {db after : Db} {now : Time} {policy : StoragePolicy} {workId : String}
    {prepared : List ObjectRow} (h : publishRefs db now policy workId prepared = .ok after)
    (halive : ∀ r ∈ db.refs.rows, ∃ o, db.objects.get? r.sha256 = some o ∧ o.deleting = false) :
    ∀ r ∈ after.refs.rows, (r ∈ db.refs.rows ∨ ∃ row ∈ prepared, row.sha256 = r.sha256) ∧
      ∃ o, after.objects.get? r.sha256 = some o ∧ o.deleting = false := by
  simp only [publishRefs, bind_eq_ok, pure_eq_ok, require_eq_ok] at h
  obtain ⟨_, -, _, -, _, -, rfl⟩ := h
  intro r hr
  have hown : r ∈ db.refs.rows ∨ ∃ row ∈ prepared, row.sha256 = r.sha256 := by
    rcases Db.foldl_insert_refs _ _ _ hr with h | h
    · exact .inl h
    · exact .inr (List.mem_map.mp h)
  refine ⟨hown, ?_⟩
  have hget := Table.get?_update (db.insertObjects prepared).objects
    (fun o => (prepared.map ObjectRow.sha256).contains o.sha256)
    (fun o => { o with preparedAt := now, deleting := false }) (by intro; rfl) r.sha256
  dsimp only
  rw [hget]
  rcases hown with hold | ⟨row, hrow, he⟩
  · obtain ⟨o, ho, hd⟩ := halive r hold
    rw [Db.get?_insertObjects db prepared ho]
    refine ⟨_, rfl, ?_⟩
    by_cases hp : (prepared.map ObjectRow.sha256).contains o.sha256 = true
    · simp only [hp, if_true]
    · simp only [hp]
      exact hd
  · obtain ⟨o, ho⟩ := Db.insertObjects_isSome db hrow
    have hk : o.sha256 = r.sha256 := (Table.get?_key ho).trans he
    rw [← he, ho]
    refine ⟨_, rfl, ?_⟩
    have hin : (prepared.map ObjectRow.sha256).contains o.sha256 = true := by
      rw [List.contains_iff_mem, hk, ← he]
      exact List.mem_map_of_mem hrow
    simp only [hin, if_true]

namespace Cleanup

theorem unowned_iff {db : Db} {digest : String} :
    unowned db digest = true ↔ ∀ r ∈ db.refs.rows, r.sha256 ≠ digest := by
  simp [unowned]

/-- A mark falls on unowned rows only. -/
theorem mark_alive {db : Db} {cutoff : Time} {candidates : List ObjectRow} {r : RefRow}
    {o : ObjectRow} (hr : r ∈ db.refs.rows) (h : db.objects.get? r.sha256 = some o) :
    (mark db cutoff candidates).1.objects.get? r.sha256 = some o := by
  have hget := Table.get?_update db.objects (marks db cutoff candidates)
    (fun o => { o with deleting := true }) (by intro; rfl) r.sha256
  have hm : marks db cutoff candidates o = false := by
    have hu : unowned db o.sha256 = false := by
      rw [← Bool.not_eq_true, unowned_iff]
      exact fun hall => hall r hr (Table.get?_key h).symm
    simp [marks, hu]
  unfold mark
  dsimp only
  rw [hget, h, Option.map_some, hm]
  rfl

theorem acknowledge_alive {db : Db} {removed : List ObjectRow} {r : RefRow} {o : ObjectRow}
    (h : db.objects.get? r.sha256 = some o) (hd : o.deleting = false) :
    (acknowledge db removed).objects.get? r.sha256 = some o := by
  unfold acknowledge
  dsimp only
  rw [Table.get?_delete, h, Option.filter_some, hd]
  simp

theorem unlinkObject_files {files written : Files γ} {known gone : Bool} {row : ObjectRow}
    (h : unlinkObject files known row = (written, gone)) :
    written = files ∨ written = Function.update files row.sha256 none := by
  unfold unlinkObject at h
  split at h
  · split at h <;> cases h
    · exact .inr rfl
    · exact .inl rfl
  · cases h
    exact .inl rfl

end Cleanup

namespace Storage

variable {s t : Storage γ}

theorem Sound.referenced (h : s.Sound) {r : RefRow} (hr : r ∈ s.db.refs.rows) :
    s.Referenced r := by
  refine ⟨h.alive r hr, ?_⟩
  obtain ⟨file, hf⟩ := Option.ne_none_iff_exists'.mp (h.present r hr)
  exact ⟨file, hf, h.intact _ _ hf⟩

omit [Content γ] in
/-- The fence's knowledge survives more files and fewer references. -/
theorem Fenced.mono {fence : Fence} (h : s.Fenced fence)
    (hfiles : ∀ digest, s.files digest ≠ none → t.files digest ≠ none)
    (hrefs : ∀ r ∈ t.db.refs.rows, r ∈ s.db.refs.rows) : t.Fenced fence := by
  cases fence with
  | free => trivial
  | verifying => exact fun digest hd => hfiles _ (h digest hd)
  | prepared => exact fun row hr => hfiles _ (h row hr)
  | reading => trivial
  | unlinking => exact fun row hrow r hr => h row hrow r (hrefs r hr)

/-- A step that writes no row: the files grow and the new fence knows what it needs. -/
theorem Sound.grow (h : s.Sound) (hdb : t.db = s.db) (hgrown : s.files.Grown t.files)
    (hfence : t.Fenced t.fence) : t.Sound where
  intact := hgrown.intact h.intact
  alive := by
    rw [hdb]
    exact h.alive
  present := by
    rw [hdb]
    exact fun r hr => hgrown.kept _ (h.present r hr)
  fenced := hfence

/-- A transaction that adds no reference and keeps the rows of the references alive. -/
theorem Sound.write (h : s.Sound) (hfiles : t.files = s.files) (hfence : t.fence = s.fence)
    (hrefs : ∀ r ∈ t.db.refs.rows, r ∈ s.db.refs.rows)
    (halive : ∀ r ∈ t.db.refs.rows, ∀ o, s.db.objects.get? r.sha256 = some o →
      o.deleting = false → t.db.objects.get? r.sha256 = some o) : t.Sound where
  intact := hfiles ▸ h.intact
  alive := by
    intro r hr
    obtain ⟨o, ho, hd⟩ := h.alive r (hrefs r hr)
    exact ⟨o, halive r hr o ho hd, hd⟩
  present := by
    rw [hfiles]
    exact fun r hr => h.present r (hrefs r hr)
  fenced := by
    rw [hfence]
    exact h.fenced.mono (fun _ hd => hfiles ▸ hd) hrefs

/-- What one step preserves, by the party that takes it. -/
theorem Sound.step (h : s.Sound) (hstep : StorageStep s t) : t.Sound := by
  cases hstep with
  | putBytes n now known room content store files _ hput =>
    have hg := ProtocolStore.putBytes_grown hput
    exact h.grow rfl hg (h.fenced.mono hg.kept fun _ hr => hr)
  | putRecord n now known room cached content store files _ hput =>
    have hg := ProtocolStore.putRecord_grown hput
    exact h.grow rfl hg (h.fenced.mono hg.kept fun _ hr => hr)
  | openPublication n workId _ => exact h.grow rfl (.refl _) (by simp [Fenced])
  | verifyNext now known room files hf hv =>
    obtain ⟨hg, hp⟩ := ProtocolStore.verifyPrepared_grown hv
    refine h.grow rfl hg fun digest hd => ?_
    rcases List.mem_append.mp hd with hd | hd
    · have hknown := h.fenced
      rw [hf] at hknown
      exact hg.kept _ (hknown digest hd)
    · rw [List.mem_singleton.mp hd]
      exact hp rfl
  | verifyFails now known room files e _ hv =>
    exact h.grow rfl (ProtocolStore.verifyPrepared_grown hv).1 trivial
  | readOwned now hf =>
    have hknown := h.fenced
    rw [hf] at hknown
    refine h.grow rfl (.refl _) fun row hrow => ?_
    obtain ⟨digest, hd, rfl⟩ := List.mem_map.mp hrow
    exact hknown digest (List.mem_of_mem_filter hd)
  | publishRefs before after db now policy owner hf hobjects hrefs hpub hobjects' hrefs' =>
    have hknown := h.fenced
    rw [hf] at hknown
    have hall := publishRefs_alive hpub (by rw [hobjects, hrefs]; exact h.alive)
    rw [← hrefs', ← hobjects', hrefs] at hall
    constructor
    · exact h.intact
    · exact fun r hr => (hall r hr).2
    · intro r hr
      rcases (hall r hr).1 with hold | ⟨row, hrow, he⟩
      · exact h.present r hold
      · exact he ▸ hknown row hrow
    · dsimp only
      rw [hf]
      exact hknown
  | closePrepared => exact h.grow rfl (.refl _) trivial
  | closeVerifying => exact h.grow rfl (.refl _) trivial
  | transaction db hobjects hrefs =>
    exact h.write rfl rfl hrefs fun _ _ _ ho _ => by rw [hobjects]; exact ho
  | discover => exact h.grow rfl (.refl _) (h.fenced.mono (fun _ hd => hd) fun _ hr => hr)
  | readRegistered => exact h.grow rfl (.refl _) (h.fenced.mono (fun _ hd => hd) fun _ hr => hr)
  | registerOrphans =>
    exact h.write rfl rfl (fun _ hr => hr) fun _ _ _ ho _ => Db.get?_insertObjects _ _ ho
  | pageMarked => exact h.grow rfl (.refl _) (h.fenced.mono (fun _ hd => hd) fun _ hr => hr)
  | pageLive => exact h.grow rfl (.refl _) (h.fenced.mono (fun _ hd => hd) fun _ hr => hr)
  | mark current db selected _ hmark =>
    cases hmark
    exact h.write rfl rfl (fun _ hr => hr) fun _ hr _ ho _ => Cleanup.mark_alive hr ho
  | fence => exact h.grow rfl (.refl _) trivial
  | readMarked hf =>
    refine h.grow rfl (.refl _) fun row hrow => ?_
    have hk := (List.mem_filter.mp hrow).2
    simp only [Bool.and_eq_true] at hk
    exact Cleanup.unowned_iff.mp hk.2
  | @unlinkNext p row todo removed known gone files hf hu =>
    have hknown := h.fenced
    rw [hf] at hknown
    have htodo := fun row hrow => hknown row (List.mem_cons_of_mem _ hrow)
    rcases Cleanup.unlinkObject_files hu with rfl | rfl
    · exact h.grow rfl (.refl _) htodo
    · constructor
      · intro digest file hd
        by_cases he : digest = row.sha256
        · simp [he] at hd
        · exact h.intact digest file (by simpa [Function.update_of_ne he] using hd)
      · exact h.alive
      · intro r hr
        have hne := hknown _ List.mem_cons_self r hr
        dsimp only
        rw [Function.update_of_ne hne]
        exact h.present r hr
      · exact htodo
  | release => exact h.grow rfl (.refl _) trivial
  | acknowledge =>
    exact h.write rfl rfl (fun _ hr => hr) fun _ _ _ ho hd => Cleanup.acknowledge_alive ho hd
  | abandon => exact h.grow rfl (.refl _) (h.fenced.mono (fun _ hd => hd) fun _ hr => hr)
  | abandonReading => exact h.grow rfl (.refl _) trivial

theorem Sound.run (h : s.Sound) (hrun : Relation.ReflTransGen StorageStep s t) : t.Sound := by
  induction hrun with
  | refl => exact h
  | tail _ hstep ih => exact ih.step hstep

end Storage

/-- Whatever the parties do from a storage in order, at every moment every committed
reference has a live row and the file of its digest. -/
theorem referenced_kept {s t : Storage γ} (hfence : s.fence = .free) (hfiles : s.files.Intact)
    (hrefs : ∀ r ∈ s.db.refs.rows, s.Referenced r)
    (hrun : Relation.ReflTransGen StorageStep s t) : ∀ r ∈ t.db.refs.rows, t.Referenced r := by
  have hs : s.Sound := by
    refine ⟨hfiles, fun r hr => (hrefs r hr).1, fun r hr => ?_, hfence ▸ trivial⟩
    obtain ⟨file, hf, _⟩ := (hrefs r hr).2
    simp [hf]
  exact fun r hr => (hs.run hrun).referenced hr

/-- The text `null` as the only content. -/
inductive NullText
  | null

instance : Content NullText where
  hash _ := "74234e98afe7498fb5daf1f36ac2d78acc339464f950703b8c019892f982b90b"
  size _ := 4

def startedWork : WorkRow :=
  { id := "w", parentWorkId := none, conversationId := "c", generation := 1,
    sourceKey := "event:1", sourceJson := .obj [], goal := "reply", state := .running,
    created := 0, updated := 0 }

/-- A database without objects, an empty directory, and a store with nothing prepared. -/
def freshStorage : Storage NullText where
  db := { works := ⟨[startedWork], by decide⟩ }
  files _ := none
  stores _ := { policy := ⟨1048576, 1073741824⟩ }

/-- The storage after the content has been put, by the holder of the fence. -/
def filedStorage (fence : Fence) : Storage NullText :=
  { freshStorage with
    files := Function.update freshStorage.files (hash NullText.null) (some ⟨.null, 1⟩)
    stores := Function.update freshStorage.stores 0
      ((freshStorage.stores 0).prepare (hash NullText.null) 4 .null)
    fence := fence }

def preparedRow : ObjectRow :=
  ⟨hash NullText.null, 4, 3, false⟩

def publishedDb : Db :=
  { freshStorage.db with
    objects := ⟨[{ preparedRow with preparedAt := 4 }], by decide⟩
    refs := ⟨[⟨"w", hash NullText.null⟩], by decide⟩ }

/-- A content is put and published. -/
theorem referenced_kept_published : ∃ t : Storage NullText,
    Relation.ReflTransGen StorageStep freshStorage t ∧
      t.db.refs.rows = [⟨"w", hash NullText.null⟩] ∧ ∀ r ∈ t.db.refs.rows, t.Referenced r := by
  have hput : StorageStep freshStorage (filedStorage .free) :=
    .putBytes 0 1 false true .null _ _ (.inl rfl) rfl
  have hopen : StorageStep (filedStorage .free)
      (filedStorage (.verifying 0 "w" [] [hash NullText.null])) := by
    have h := StorageStep.openPublication (s := filedStorage .free) 0 "w" rfl
    have hrefs : ((filedStorage .free).stores 0).preparedRefs = [hash NullText.null] := rfl
    rwa [hrefs, List.mergeSort_singleton] at h
  have hverify : StorageStep (filedStorage (.verifying 0 "w" [] [hash NullText.null]))
      (filedStorage (.verifying 0 "w" [hash NullText.null] [])) := by
    have hfence : (filedStorage (.verifying 0 "w" [] [hash NullText.null])).fence =
      .verifying 0 "w" [] [hash NullText.null] := rfl
    exact .verifyNext 2 true true _ hfence rfl
  have hread : StorageStep (filedStorage (.verifying 0 "w" [hash NullText.null] []))
      (filedStorage (.prepared 0 "w" [preparedRow])) := by
    have hfence : (filedStorage (.verifying 0 "w" [hash NullText.null] [])).fence =
      .verifying 0 "w" [hash NullText.null] [] := rfl
    exact .readOwned 3 hfence
  have hpublish : StorageStep (filedStorage (.prepared 0 "w" [preparedRow]))
      { filedStorage (.prepared 0 "w" [preparedRow]) with db := publishedDb } := by
    have hfence : (filedStorage (.prepared 0 "w" [preparedRow])).fence =
      .prepared 0 "w" [preparedRow] := rfl
    exact .publishRefs freshStorage.db _ publishedDb 4 ⟨1048576, 1073741824⟩ "w" hfence rfl rfl
      rfl rfl rfl
  have hrun := ((((Relation.ReflTransGen.single hput).tail hopen).tail hverify).tail
    hread).tail hpublish
  have hfiles : freshStorage.files.Intact := fun _ _ hf => absurd hf (by simp [freshStorage])
  have hrefs : ∀ r ∈ freshStorage.db.refs.rows, freshStorage.Referenced r :=
    fun _ hr => (List.not_mem_nil hr).elim
  exact ⟨_, hrun, rfl, referenced_kept rfl hfiles hrefs hrun⟩

end Yuki

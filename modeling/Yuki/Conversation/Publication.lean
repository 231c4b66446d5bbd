import Yuki.Conversation.Heads
import Yuki.Lib.Transition

/-! Any number of callers over one database: they read, build candidates, prepare and
publish in any order, and every valid head still says what its chunks hold. -/

namespace Yuki.Projection

open Frozen FrozenFragments

/-- The candidates and the database, and what callers hold of them: the snapshots read or
published, the prepared publications, and the epochs drawn so far. -/
structure World where
  frozen : Frozen.World := .start
  db : Db := {}
  snapshots : List Snapshot := []
  publications : List Publication := []
  epochs : List String := []

inductive Event
  | build (call : Call)
  | read (viewKey : String) (previous : Option Snapshot)
  | readCheckpoint (conversationId : String) (previous : Option Snapshot)
  | prepareCommit (repository : Repository) (commit : Commit) (now : Int)
  | publish (p : Publication) (epoch : String) (now : Int) (commits : Bool)
  | invalidateView (viewKey reason : String) (now : Int)
  | outside (conversations : Table ConversationRow.id) (privacyGeneration : Int)
      (selections : Table SelectionRow.key) (retired : List String) (reason : String) (now : Int)

namespace World

/-- A repository may have kept any snapshot of the view, or none. -/
def reads (w : World) (row : Option ProjectionRow) (previous : Option Snapshot) : Option World :=
  match row with
  | none => some w
  | some row =>
    if previous.all fun σ => σ ∈ w.snapshots ∧ σ.prefixStamp.viewKey = row.viewKey then
      let result := readRow w.db row previous w.frozen
      some { w with
        frozen := result.2
        snapshots := match result.1 with
          | .ok σ => w.snapshots ++ [σ]
          | .error _ => w.snapshots }
    else none

/-- One step. `uuid4` hands out a new epoch, a raise or a failed commit rolls the transaction
back, and the triggers of other tables retire heads. -/
def step (digest : String → String) (w : World) : Event → Option World
  | .build call =>
    if call.receiver.all (· ∈ w.frozen.values) then
      some { w with frozen := (act w.frozen call).2 }
    else none
  | .read viewKey previous => w.reads (w.db.current viewKey) previous
  | .readCheckpoint conversationId previous => w.reads (w.db.checkpoint conversationId) previous
  | .prepareCommit repository commit now =>
    if commit.fragments ∈ w.frozen.values ∧ commit.previousSnapshot.all (· ∈ w.snapshots) then
      match Projection.prepareCommit repository digest w.db now commit with
      | .ok p => some { w with publications := w.publications ++ [p] }
      | .error _ => some w
    else none
  | .publish p epoch now commits =>
    if p ∈ w.publications ∧ epoch ∉ w.epochs then
      match Projection.publish w.db p epoch now, commits with
      | .ok (db, σ), true => some { w with
          db := db, snapshots := w.snapshots ++ [σ], epochs := epoch :: w.epochs }
      | _, _ => some { w with epochs := epoch :: w.epochs }
    else none
  | .invalidateView viewKey reason now =>
    match Projection.invalidateView w.db viewKey reason now with
    | .ok db => some { w with db := db }
    | .error _ => some w
  | .outside conversations privacyGeneration selections retired reason now =>
    some { w with db := { w.db.retire retired reason now with
      conversations := conversations
      privacyGeneration := privacyGeneration
      selections := selections } }

def Steps (digest : String → String) (w : World) (e : Event) (w' : World) : Prop :=
  w.step digest e = some w'

/-- A snapshot is no newer than a head of its epoch, and holds a prefix of what that stores. -/
structure Known (w : World) (σ : Snapshot) : Prop where
  held : σ.fragments ∈ w.frozen.values
  bytes : σ.byteSize = bytesOf σ.fragments.iterFragments
  epoch : σ.prefixStamp.epochId ∈ w.epochs
  current : ∀ row, w.db.rows.get? σ.prefixStamp.viewKey = some row →
    row.epochId = σ.prefixStamp.epochId → σ.prefixStamp.revision ≤ row.revision ∧
      (row.invalidatedReason = none → ∃ blocks, w.db.Stored row blocks ∧
        σ.tailOrdinal ≤ blocks.length ∧
        σ.fragments.iterFragments = (blocks.take σ.tailOrdinal).flatten ∧
        (σ.prefixStamp.revision = row.revision → σ.tailOrdinal = row.tailOrdinal))

/-- What preparation established of a publication, which nothing changes any more. -/
structure Prepared (w : World) (p : Publication) : Prop where
  held : p.commit.fragments ∈ w.frozen.values
  known : ∀ σ, p.commit.previousSnapshot = some σ → σ ∈ w.snapshots
  carries : ∃ before added, p.Carries before added ∧
    (p.commit.rebuildReason = none → ∃ σ, p.commit.previousSnapshot = some σ ∧
      σ.prefixStamp.viewKey = p.commit.viewKey ∧ before = σ.fragments.iterFragments ∧
      p.tail = σ.tailOrdinal) ∧
    (p.commit.rebuildReason ≠ none → before = [] ∧ p.tail = 0)

structure Sound (w : World) : Prop where
  frozen : w.frozen.Sound
  epochs : ∀ v row, w.db.rows.get? v = some row → row.epochId ∈ w.epochs
  chunks : ∀ chunk ∈ w.db.chunks.rows, chunk.epochId ∈ w.epochs
  valid : ∀ v row, w.db.rows.get? v = some row → row.invalidatedReason = none →
    ∃ blocks, w.db.Stored row blocks
  retired : ∀ v row, w.db.rows.get? v = some row → row.invalidatedReason ≠ none →
    row.tailOrdinal = 0 ∧ row.byteSize = 2
  known : ∀ σ ∈ w.snapshots, w.Known σ
  prepared : ∀ p ∈ w.publications, w.Prepared p

theorem sound_start : ({} : World).Sound where
  frozen := Frozen.World.sound_start
  epochs v row h := by cases h
  chunks chunk h := by cases h
  valid v row h := by cases h
  retired v row h := by cases h
  known σ h := by cases h
  prepared p h := by cases h

variable {w w' : World} {db' : Db} {epochs : List String} {p : Publication} {σ : Snapshot}
  {epoch : String} {now : Int} {digest : String → String}

/-- Steps of the heads keep what is known of the database. -/
theorem Sound.advance (h : w.Sound) (hheads : ∀ v, HeadStep w.epochs w.db db' v)
    (hsub : w.epochs ⊆ epochs) (hrows : ∀ v row, db'.rows.get? v = some row → row.epochId ∈ epochs)
    (hchunks : ∀ chunk ∈ db'.chunks.rows, chunk.epochId ∈ epochs) :
    Sound { w with db := db', epochs := epochs } where
  frozen := h.frozen
  epochs := hrows
  chunks := hchunks
  valid v row hrow hvalid := by
    cases hheads v with
    | same head chunks =>
      have hold := head.symm.trans hrow
      obtain ⟨blocks, hb⟩ := h.valid v row hold hvalid
      have hkey := Table.get?_key hold
      exact ⟨blocks, hb.tail, fun n => by rw [← hb.chunks n, hkey]; exact chunks row hold _ _,
        hb.count, hb.bytes, hb.nodup⟩
    | retired old reason now head head' =>
      cases head'.symm.trans hrow
      cases hvalid
    | extended old row' added head head' was valid epoch revision summary stored =>
      cases head'.symm.trans hrow
      obtain ⟨blocks, hb⟩ := h.valid v old head was
      exact ⟨_, stored blocks hb⟩
    | rebuilt row' blocks head' valid epoch summary stored =>
      cases head'.symm.trans hrow
      exact ⟨blocks, stored⟩
  retired v row hrow hinvalid := by
    cases hheads v with
    | same head chunks => exact h.retired v row (head.symm.trans hrow) hinvalid
    | retired old reason now head head' =>
      cases head'.symm.trans hrow
      exact ⟨rfl, rfl⟩
    | extended old row' added head head' was valid epoch revision summary stored =>
      cases head'.symm.trans hrow
      exact absurd valid hinvalid
    | rebuilt row' blocks head' valid epoch summary stored =>
      cases head'.symm.trans hrow
      exact absurd valid hinvalid
  known σ hσ := by
    have hk := h.known σ hσ
    refine ⟨hk.held, hk.bytes, hsub hk.epoch, fun row hrow he => ?_⟩
    cases hheads σ.prefixStamp.viewKey with
    | same head chunks =>
      have hold := head.symm.trans hrow
      obtain ⟨hrev, hcur⟩ := hk.current row hold he
      refine ⟨hrev, fun hvalid => ?_⟩
      obtain ⟨blocks, hb, hrest⟩ := hcur hvalid
      have hkey := Table.get?_key hold
      exact ⟨blocks, ⟨hb.tail, fun n => by rw [← hb.chunks n, hkey]; exact chunks row hold _ _,
        hb.count, hb.bytes, hb.nodup⟩, hrest⟩
    | retired old reason now head head' =>
      cases head'.symm.trans hrow
      exact ⟨Nat.le_succ_of_le (hk.current old head he).1, fun hvalid => by cases hvalid⟩
    | extended old row' added head head' was valid epoch revision summary stored =>
      cases head'.symm.trans hrow
      obtain ⟨hrev, hcur⟩ := hk.current old head (epoch.symm.trans he)
      refine ⟨by omega, fun _ => ?_⟩
      obtain ⟨blocks, hb, hlen, hiter, -⟩ := hcur was
      refine ⟨_, stored blocks hb, ?_, ?_, fun hno => absurd hno (by omega)⟩
      · rw [List.length_append]
        exact Nat.le_add_right_of_le hlen
      · rw [List.take_append_of_le_length hlen, hiter]
    | rebuilt row' blocks head' valid epoch summary stored =>
      cases head'.symm.trans hrow
      rw [he] at epoch
      exact absurd hk.epoch epoch
  prepared p hp := ⟨(h.prepared p hp).held, (h.prepared p hp).known, (h.prepared p hp).carries⟩

/-- The previous snapshot of an append is of the head as it stands. -/
theorem Sound.stored_previous (h : w.Sound) (hp : w.Prepared p) {old : ProjectionRow}
    (hold : w.db.rows.get? p.commit.viewKey = some old)
    (hstamp : p.commit.previousSnapshot.map (·.prefixStamp) = some (prefixVersion old))
    (hvalid : old.invalidatedReason = none) (hσ : p.commit.previousSnapshot = some σ) :
    ∃ blocks, w.db.Stored old blocks ∧ σ.fragments.iterFragments = blocks.flatten ∧
      σ.tailOrdinal = blocks.length := by
  have hk := h.known σ (hp.known σ hσ)
  rw [hσ] at hstamp
  have hsame : σ.prefixStamp = prefixVersion old := Option.some.inj hstamp
  have hview : σ.prefixStamp.viewKey = p.commit.viewKey := by
    rw [hsame]
    exact (Table.get?_key hold : old.viewKey = _)
  obtain ⟨-, hcur⟩ := hk.current old (by rw [hview]; exact hold) (by rw [hsame]; rfl)
  obtain ⟨blocks, hb, -, hiter, htail⟩ := hcur hvalid
  have hlen : σ.tailOrdinal = blocks.length := (htail (by rw [hsame]; rfl)).trans hb.tail
  refine ⟨blocks, hb, ?_, hlen⟩
  rw [hiter, hlen, List.take_length]

/-- The head that a publication writes, over what it puts there. -/
theorem Sound.publish_own (h : w.Sound) (hp : w.Prepared p) (hfresh : epoch ∉ w.epochs)
    {u : Unit} (hhead : requireHead p.commit (w.db.rows.get? p.commit.viewKey) = .ok u)
    {views : List String} (hviews : views.contains p.commit.viewKey = false)
    {chunks : Table ChunkRow.key} {selections : Table SelectionRow.key}
    (hchunks : insertChunks p.commit.viewKey
      (p.row (w.db.rows.get? p.commit.viewKey) epoch now).epochId (p.tail + 1) p.encoded
      ((w.db.retire views "capacity" now).putHead
        (p.row (w.db.rows.get? p.commit.viewKey) epoch now)).chunks = .ok chunks) :
    HeadStep w.epochs w.db { (w.db.retire views "capacity" now).putHead
      (p.row (w.db.rows.get? p.commit.viewKey) epoch now) with
        chunks := chunks, selections := selections } p.commit.viewKey ∧
    ∃ blocks, Db.Stored { (w.db.retire views "capacity" now).putHead
      (p.row (w.db.rows.get? p.commit.viewKey) epoch now) with
        chunks := chunks, selections := selections }
      (p.row (w.db.rows.get? p.commit.viewKey) epoch now) blocks ∧
      blocks.flatten = p.commit.fragments.iterFragments := by
  obtain ⟨before, added, hc, happend, hrebuild⟩ := hp.carries
  have hput := get?_putHead_row (w.db.retire views "capacity" now) p
    (w.db.rows.get? p.commit.viewKey) epoch now
  rw [hc.encoded] at hchunks
  cases hr : p.commit.rebuildReason with
  | some reason =>
    obtain ⟨hbefore, htail⟩ := hrebuild (by rw [hr]; exact Option.some_ne_none _)
    subst hbefore
    have hepoch : (p.row (w.db.rows.get? p.commit.viewKey) epoch now).epochId = epoch := by
      simp [Publication.row, hr]
    rw [hepoch] at hchunks
    -- No chunk of the new epoch stands yet.
    have hnone : ∀ n, ((w.db.retire views "capacity" now).putHead
        (p.row (w.db.rows.get? p.commit.viewKey) epoch now)).chunks.get?
          (p.commit.viewKey, epoch, n + 1) = none := by
      intro n
      rw [Table.get?_eq_none]
      intro hin
      obtain ⟨chunk, hmem, hkey⟩ := List.mem_map.mp hin
      have hchunk := h.chunks chunk (List.mem_of_mem_filter (chunks_putHead_sub hmem))
      have he : chunk.epochId = epoch := congrArg (·.2.1) hkey
      exact hfresh (he ▸ hchunk)
    rw [htail] at hchunks
    have hstored := chunks_insert [] hnone hchunks
    have hall : Db.Stored { (w.db.retire views "capacity" now).putHead
        (p.row (w.db.rows.get? p.commit.viewKey) epoch now) with
          chunks := chunks, selections := selections }
        (p.row (w.db.rows.get? p.commit.viewKey) epoch now) added := by
      refine ⟨?_, fun n => ?_, ?_, ?_, ?_⟩
      · change p.tail + p.encoded.length = _
        rw [htail, hc.encoded, List.length_map, Nat.zero_add]
      · rw [hepoch]
        exact hstored n
      · change p.count = _
        rw [hc.count, hc.fragments, List.nil_append]
      · change p.size = _
        rw [hc.size, hc.fragments, List.nil_append]
      · have hnodup := (h.frozen.exact _ hp.held).nodup
        rwa [eventIds, hc.fragments, List.nil_append] at hnodup
    refine ⟨.rebuilt _ added hput rfl (by rw [hepoch]; exact hfresh) (fun old hold hpres hh => ?_)
      hall, added, hall, ?_⟩
    · rcases requireHead_cases hhead with ⟨hno, -⟩ | ⟨old', hold', hnewer, -⟩
      · rw [hold] at hno
        cases hno
      · cases hold.symm.trans hold'
        exact not_newerCheckpoint hnewer hpres hh
    · rw [hc.fragments, List.nil_append]
  | none =>
    obtain ⟨σ, hσ, -, hbefore, htail⟩ := happend hr
    rcases requireHead_cases hhead with ⟨-, hno⟩ | ⟨old, hold, hnewer, hcas⟩
    · exact absurd hr hno
    obtain ⟨hstamp, hvalid⟩ := hcas hr
    obtain ⟨blocks, hb, hiter, hlen⟩ := h.stored_previous hp hold hstamp hvalid hσ
    have hkey := Table.get?_key hold
    have hepoch : (p.row (w.db.rows.get? p.commit.viewKey) epoch now).epochId = old.epochId := by
      simp [Publication.row, hr, hold]
    have hput' : ((w.db.retire views "capacity" now).putHead
        (p.row (w.db.rows.get? p.commit.viewKey) epoch now)).chunks =
          (w.db.retire views "capacity" now).chunks := by
      have hget : (w.db.retire views "capacity" now).rows.get? p.commit.viewKey = some old := by
        rw [get?_retire, hold, Option.map_some, hviews]
        rfl
      exact chunks_putHead_same hget hepoch
    rw [hput', hepoch, htail, hlen] at hchunks
    have hat : ∀ n, (w.db.retire views "capacity" now).chunks.get?
        (p.commit.viewKey, old.epochId, n + 1) = blocks[n]?.map fun block =>
          ⟨p.commit.viewKey, old.epochId, n + 1, block.map item⟩ := by
      intro n
      rw [chunks_retire _ _ _ _ hviews, ← hkey]
      exact hb.chunks n
    have hstored := chunks_insert blocks hat hchunks
    have hall : Db.Stored { (w.db.retire views "capacity" now).putHead
        (p.row (w.db.rows.get? p.commit.viewKey) epoch now) with
          chunks := chunks, selections := selections }
        (p.row (w.db.rows.get? p.commit.viewKey) epoch now) (blocks ++ added) := by
      refine ⟨?_, fun n => ?_, ?_, ?_, ?_⟩
      · change p.tail + p.encoded.length = _
        rw [htail, hlen, hc.encoded, List.length_map, List.length_append]
      · rw [hepoch]
        exact hstored n
      · change p.count = _
        rw [hc.count, hc.fragments, hbefore, hiter, List.flatten_append]
      · change p.size = _
        rw [hc.size, hc.fragments, hbefore, hiter, List.flatten_append]
      · have hnodup := (h.frozen.exact _ hp.held).nodup
        rwa [eventIds, hc.fragments, hbefore, hiter, ← List.flatten_append] at hnodup
    refine ⟨.extended old _ added hold hput hvalid rfl hepoch ?_
      (fun hpres hh => not_newerCheckpoint hnewer hpres hh) fun blocks' hb' => ?_, _, hall, ?_⟩
    · simp [Publication.row, hr, hold]
    · rwa [hb'.unique hb]
    · rw [hc.fragments, hbefore, hiter, List.flatten_append]

theorem own_not_victim (self : Repository) (db : Db) (viewKey : String) (size : Nat) :
    (roomFor self db viewKey size).victims.contains viewKey = false := by
  rw [List.contains_eq_mem, decide_eq_false_iff_not]
  intro hin
  obtain ⟨r, hr, hkey⟩ := (roomFor_spec self db viewKey size).1 _ hin
  exact (mem_others.mp hr).2.1 hkey

/-- Every head after a publication that returned. -/
theorem Sound.publish_heads (h : w.Sound) (hp : w.Prepared p) (hfresh : epoch ∉ w.epochs)
    (hpub : Projection.publish w.db p epoch now = .ok (db', σ)) (v : String) :
    HeadStep w.epochs w.db db' v := by
  obtain ⟨hhead, ⟨-, rfl, -⟩ | ⟨-, -, -, chunks, selections, hchunks, rfl⟩⟩ := publish_cases hpub
  · exact .same rfl fun _ _ _ _ => rfl
  obtain ⟨hvictims, -, -⟩ := roomFor_spec p.repository w.db p.commit.viewKey p.size
  have hown := own_not_victim p.repository w.db p.commit.viewKey p.size
  by_cases hv : v = p.commit.viewKey
  · subst hv
    exact (h.publish_own hp hfresh hhead hown hchunks).1
  · have hput : ((w.db.retire (roomFor p.repository w.db p.commit.viewKey p.size).victims "capacity"
        now).putHead (p.row (w.db.rows.get? p.commit.viewKey) epoch now)).rows.get? v =
          (w.db.rows.get? v).map fun r =>
            if (roomFor p.repository w.db p.commit.viewKey p.size).victims.contains v then
              r.retired "capacity" now else r := by
      have hv' : v ≠ (p.row (w.db.rows.get? p.commit.viewKey) epoch now).viewKey := hv
      rw [get?_putHead, if_neg hv', get?_retire]
    cases hin : (roomFor p.repository w.db p.commit.viewKey p.size).victims.contains v with
    | true =>
      obtain ⟨r, hr, hkey⟩ := hvictims v (by simpa using hin)
      have hold : w.db.rows.get? v = some r :=
        Table.get?_eq_some.mpr ⟨(mem_others.mp hr).1, hkey⟩
      refine .retired r "capacity" now hold ?_
      rw [hin, hold] at hput
      exact hput
    | false =>
      refine .same ?_ fun old _ e n => ?_
      · rw [hin] at hput
        simpa using hput
      · have hne : ∀ i, (v, e, n) ≠ (p.commit.viewKey,
            (p.row (w.db.rows.get? p.commit.viewKey) epoch now).epochId, p.tail + 1 + i) :=
          fun i he => hv (congrArg (·.1) he)
        rw [(insertChunks_spec hchunks).2.1 _ hne, chunks_putHead_other _ _ hv,
          chunks_retire _ _ _ _ hin]

theorem Sound.mono_epochs (h : w.Sound) (epoch : String) :
    Sound { w with epochs := epoch :: w.epochs } :=
  h.advance (fun _ => .same rfl fun _ _ _ _ => rfl) (List.subset_cons_self _ _)
    (fun v row hrow => List.mem_cons_of_mem _ (h.epochs v row hrow))
    fun chunk hc => List.mem_cons_of_mem _ (h.chunks chunk hc)

theorem epochId_row (p : Publication) (o : Option ProjectionRow) (epoch : String) (now : Int) :
    (p.row o epoch now).epochId = epoch ∨
      ∃ old, o = some old ∧ (p.row o epoch now).epochId = old.epochId := by
  unfold Publication.row
  dsimp only
  cases hr : p.commit.rebuildReason with
  | some reason => exact Or.inl rfl
  | none =>
    cases o with
    | none => exact Or.inl rfl
    | some old => exact Or.inr ⟨old, rfl, rfl⟩

theorem known_published (h : w.Sound) (hp : w.Prepared p) (hfresh : epoch ∉ w.epochs)
    (hpub : Projection.publish w.db p epoch now = .ok (db', σ))
    (hnew : Sound { w with db := db', epochs := epoch :: w.epochs }) :
    Known { w with db := db', epochs := epoch :: w.epochs } σ := by
  obtain ⟨hhead, ⟨-, -, hσ⟩ | ⟨-, -, rfl, chunks, selections, hchunks, rfl⟩⟩ := publish_cases hpub
  · exact hnew.known σ (hp.known σ hσ)
  obtain ⟨-, blocks, hb, hflat⟩ := h.publish_own hp hfresh hhead
    (own_not_victim p.repository w.db p.commit.viewKey p.size) hchunks
  obtain ⟨before, added, hc, -⟩ := hp.carries
  have hget := get?_putHead_row (w.db.retire (roomFor p.repository w.db p.commit.viewKey
    p.size).victims "capacity" now) p (w.db.rows.get? p.commit.viewKey) epoch now
  refine ⟨hp.held, hc.size, hnew.epochs _ _ hget, fun row hrow _ => ?_⟩
  cases hget.symm.trans hrow
  refine ⟨Nat.le_refl _, fun _ => ⟨blocks, hb, ?_, ?_, fun _ => rfl⟩⟩
  · exact Nat.le_of_eq hb.tail
  · have htail : (snapshot (p.row (w.db.rows.get? p.commit.viewKey) epoch now)
        p.commit.fragments).tailOrdinal = blocks.length := hb.tail
    rw [htail, List.take_length, hflat]
    rfl

/-- A committed publication keeps the world sound, with the snapshot it hands out. -/
theorem Sound.publish (h : w.Sound) (hp : w.Prepared p) (hfresh : epoch ∉ w.epochs)
    (hpub : Projection.publish w.db p epoch now = .ok (db', σ)) :
    Sound { w with db := db', snapshots := w.snapshots ++ [σ], epochs := epoch :: w.epochs } := by
  have hheads := h.publish_heads hp hfresh hpub
  have hepochs : (∀ v row, db'.rows.get? v = some row → row.epochId ∈ epoch :: w.epochs) ∧
      ∀ chunk ∈ db'.chunks.rows, chunk.epochId ∈ epoch :: w.epochs := by
    obtain ⟨-, ⟨-, rfl, -⟩ | ⟨-, -, -, chunks, selections, hchunks, rfl⟩⟩ := publish_cases hpub
    · exact ⟨fun v row hrow => List.mem_cons_of_mem _ (h.epochs v row hrow),
        fun chunk hc => List.mem_cons_of_mem _ (h.chunks chunk hc)⟩
    have hrow :
        (p.row (w.db.rows.get? p.commit.viewKey) epoch now).epochId ∈ epoch :: w.epochs := by
      rcases epochId_row p (w.db.rows.get? p.commit.viewKey) epoch now with he | ⟨old, hold, he⟩
      · rw [he]
        exact List.mem_cons_self
      · rw [he]
        exact List.mem_cons_of_mem _ (h.epochs _ old hold)
    refine ⟨fun v row hget => ?_, fun chunk hc => ?_⟩
    · change ((w.db.retire _ "capacity" now).putHead _).rows.get? v = some row at hget
      rw [get?_putHead] at hget
      split at hget
      · cases hget
        exact hrow
      · rw [get?_retire] at hget
        obtain ⟨old, hold, hget⟩ := Option.map_eq_some_iff.mp hget
        have he : row.epochId = old.epochId := by
          rw [← hget]
          split <;> rfl
        rw [he]
        exact List.mem_cons_of_mem _ (h.epochs v old hold)
    · rcases (insertChunks_spec hchunks).2.2 chunk hc with hc | he
      · exact List.mem_cons_of_mem _
          (h.chunks chunk (List.mem_of_mem_filter (chunks_putHead_sub hc)))
      · rw [he]
        exact hrow
  have hnew := h.advance hheads (List.subset_cons_self epoch w.epochs) hepochs.1 hepochs.2
  refine ⟨hnew.frozen, hnew.epochs, hnew.chunks, hnew.valid, hnew.retired, fun σ' hσ' => ?_,
    fun p' hp' => ?_⟩
  · have hk : World.Known { w with db := db', epochs := epoch :: w.epochs } σ' := by
      rcases List.mem_append.mp hσ' with hσ' | hσ'
      · exact hnew.known σ' hσ'
      · rw [List.mem_singleton.mp hσ']
        exact known_published h hp hfresh hpub hnew
    exact ⟨hk.held, hk.bytes, hk.epoch, hk.current⟩
  · have hk := hnew.prepared p' hp'
    exact ⟨hk.held, fun σ' hσ' => List.mem_append_left _ (hk.known σ' hσ'), hk.carries⟩

/-- The blocks of a delta are what the candidate has behind its ancestor. -/
theorem iterFragments_of_delta {frozen : Frozen.World} (hs : frozen.Sound) {q r : FrozenFragments}
    (hq : q ∈ frozen.values) (hr : r ∈ frozen.values) {blocks : List (List FrozenFragment)}
    (h : r.deltaFrom q = .ok blocks) : r.iterFragments = q.iterFragments ++ blocks.flatten := by
  have hderived : frozen.Derived q r := by
    by_contra hno
    obtain ⟨e, he, -⟩ := hs.deltaFrom_error hq hr hno
    cases h.symm.trans he
  obtain ⟨blocks', hblocks, hiter⟩ := hs.deltaFrom_ok hr hderived
  cases h.symm.trans hblocks
  exact hiter.symm

/-- Where a publication starts, and what its blocks make of it. -/
theorem Sound.startOf_cases (h : w.Sound) {c : Commit} (hheld : c.fragments ∈ w.frozen.values)
    (hknown : ∀ σ, c.previousSnapshot = some σ → σ ∈ w.snapshots) {start : Encoded} {tail : Nat}
    {blocks : List (List FrozenFragment)} (hrun : startOf c = .ok (start, tail, blocks)) :
    start.encoded = [] ∧ ∃ before, start.size = bytesOf before ∧ start.count = before.length ∧
      c.fragments.iterFragments = before ++ blocks.flatten ∧
      (c.rebuildReason = none → ∃ σ, c.previousSnapshot = some σ ∧
        σ.prefixStamp.viewKey = c.viewKey ∧ before = σ.fragments.iterFragments ∧
        tail = σ.tailOrdinal) ∧
      (c.rebuildReason ≠ none → before = [] ∧ tail = 0) := by
  unfold startOf at hrun
  split at hrun
  · rename_i hr
    obtain ⟨σ, hσ, hrun⟩ := bind_eq_ok.mp hrun
    obtain ⟨u, hview, hrun⟩ := bind_eq_ok.mp hrun
    obtain ⟨blocks', hdelta, hrun⟩ := bind_eq_ok.mp hrun
    cases hrun
    rw [expect_eq_ok] at hσ
    have hk := h.known σ (hknown σ hσ)
    have hd : c.fragments.deltaFrom σ.fragments = .ok blocks := by
      cases hdelta' : c.fragments.deltaFrom σ.fragments with
      | ok blocks' =>
        rw [hdelta'] at hdelta
        cases hdelta
        rfl
      | error e =>
        rw [hdelta'] at hdelta
        cases hdelta
    exact ⟨rfl, σ.fragments.iterFragments, hk.bytes, (h.frozen.exact _ hk.held).len,
      iterFragments_of_delta h.frozen hk.held hheld hd,
      fun _ => ⟨σ, hσ, require_eq_ok.mp hview, rfl, rfl⟩, fun hno => absurd hr hno⟩
  · rename_i reason hr
    cases hrun
    refine ⟨rfl, [], rfl, rfl, rfl, fun hno => ?_, fun _ => ⟨rfl, rfl⟩⟩
    rw [hr] at hno
    cases hno

theorem Sound.prepareCommit (h : w.Sound) {self : Repository} {c : Commit}
    (hheld : c.fragments ∈ w.frozen.values)
    (hknown : ∀ σ, c.previousSnapshot = some σ → σ ∈ w.snapshots)
    (hrun : Projection.prepareCommit self digest w.db now c = .ok p) : w.Prepared p := by
  unfold Projection.prepareCommit at hrun
  obtain ⟨-, -, hrun⟩ := bind_eq_ok.mp hrun
  obtain ⟨⟨start, tail, blocks⟩, hstart, hrun⟩ := bind_eq_ok.mp hrun
  obtain ⟨-, -, hrun⟩ := bind_eq_ok.mp hrun
  obtain ⟨-, -, hrun⟩ := bind_eq_ok.mp hrun
  obtain ⟨known, -, hrun⟩ := bind_eq_ok.mp hrun
  obtain ⟨sources, -, hrun⟩ := bind_eq_ok.mp hrun
  cases hrun
  obtain ⟨hnil, before, hsize, hcount, hiter, happend, hrebuild⟩ :=
    h.startOf_cases hheld hknown hstart
  obtain ⟨added, hflat, henc, hsize', hcount'⟩ := foldl_add blocks start before hsize hcount
  rw [hnil, List.nil_append] at henc
  rw [← hiter] at hsize' hcount'
  exact ⟨hheld, hknown, before, added, ⟨by rw [hflat]; exact hiter, henc, hsize', hcount'⟩,
    happend, hrebuild⟩

/-- More candidates, snapshots and publications that are known leave the rest as it is. -/
theorem Sound.extend (h : w.Sound) {frozen : Frozen.World} (hs : frozen.Sound)
    (hv : w.frozen.values <+: frozen.values) (more : List Snapshot) (ps : List Publication)
    (hmore : ∀ σ ∈ more, Known { w with frozen := frozen } σ) (hps : ∀ p ∈ ps, w.Prepared p) :
    Sound { w with
      frozen := frozen, snapshots := w.snapshots ++ more,
      publications := w.publications ++ ps } where
  frozen := hs
  epochs := h.epochs
  chunks := h.chunks
  valid := h.valid
  retired := h.retired
  known σ hσ := by
    rcases List.mem_append.mp hσ with hσ | hσ
    · have hk := h.known σ hσ
      exact ⟨hv.subset hk.held, hk.bytes, hk.epoch, hk.current⟩
    · have hk := hmore σ hσ
      exact ⟨hk.held, hk.bytes, hk.epoch, hk.current⟩
  prepared p hp := by
    have hk : w.Prepared p := (List.mem_append.mp hp).elim (h.prepared p) (hps p)
    exact ⟨hv.subset hk.held, fun σ hσ => List.mem_append_left _ (hk.known σ hσ), hk.carries⟩

/-- A snapshot of the whole row, as a reader or a publisher makes it, is known. -/
theorem Sound.known_row (h : w.Sound) {row : ProjectionRow} {v : String}
    (hrow : w.db.rows.get? v = some row) {frozen : Frozen.World} {q : FrozenFragments}
    (hq : q ∈ frozen.values) {blocks : List (List FrozenFragment)}
    (hb : row.invalidatedReason = none → w.db.Stored row blocks ∧ q.iterFragments = blocks.flatten)
    (hno : row.invalidatedReason ≠ none → q.iterFragments = []) :
    Known { w with frozen := frozen } (snapshot row q) := by
  have hkey : row.viewKey = v := Table.get?_key hrow
  refine ⟨hq, ?_, h.epochs v row hrow, fun row' hrow' _ => ?_⟩
  · change row.byteSize = bytesOf q.iterFragments
    by_cases hvalid : row.invalidatedReason = none
    · obtain ⟨hs, hiter⟩ := hb hvalid
      rw [hs.bytes, hiter]
    · rw [(h.retired v row hrow hvalid).2, hno hvalid]
      rfl
  · change w.db.rows.get? row.viewKey = some row' at hrow'
    rw [hkey] at hrow'
    cases hrow.symm.trans hrow'
    refine ⟨Nat.le_refl _, fun hvalid => ?_⟩
    obtain ⟨hs, hiter⟩ := hb hvalid
    refine ⟨blocks, hs, Nat.le_of_eq hs.tail, ?_, fun _ => rfl⟩
    have htail : (snapshot row q).tailOrdinal = blocks.length := hs.tail
    rw [htail, List.take_length]
    exact hiter

theorem Sound.reads (h : w.Sound) {row : Option ProjectionRow} {previous : Option Snapshot}
    (hrow : ∀ r, row = some r → w.db.rows.get? r.viewKey = some r)
    (hstep : w.reads row previous = some w') : w'.Sound := by
  unfold World.reads at hstep
  cases row with
  | none =>
    cases hstep
    exact h
  | some row =>
    dsimp only at hstep
    split at hstep
    · rename_i hheld
      have hget := hrow row rfl
      have hprevious : ∀ σ, previous = some σ → σ ∈ w.snapshots ∧
          σ.prefixStamp.viewKey = row.viewKey := by
        intro σ hσ
        subst hσ
        simpa using hheld
      obtain ⟨blocks, hblocks⟩ :
          ∃ blocks, row.invalidatedReason = none → w.db.Stored row blocks := by
        by_cases hvalid : row.invalidatedReason = none
        · obtain ⟨blocks, hb⟩ := h.valid _ row hget hvalid
          exact ⟨blocks, fun _ => hb⟩
        · exact ⟨[], fun hno => absurd hno hvalid⟩
      obtain ⟨hs, hv, hok⟩ := readRow_spec h.frozen previous hblocks fun σ hσ => by
        obtain ⟨hmem, hview⟩ := hprevious σ hσ
        have hk := h.known σ hmem
        refine ⟨hk.held, fun he hvalid => ?_⟩
        obtain ⟨-, hcur⟩ := hk.current row (by rw [hview]; exact hget) he.symm
        obtain ⟨blocks', hb', -, hiter, -⟩ := hcur hvalid
        rwa [(hblocks hvalid).unique hb']
      cases hstep
      cases hres : (readRow w.db row previous w.frozen).1 with
      | error e =>
        have hnew := h.extend hs hv [] [] (by simp) (by simp)
        simpa [hres] using hnew
      | ok σ =>
        have hk : Known { w with frozen := (readRow w.db row previous w.frozen).2 } σ := by
          rcases hok σ hres with ⟨hσ, -⟩ | ⟨q, hq, rfl, hiter, hno⟩
          · have hk := h.known σ (hprevious σ hσ).1
            exact ⟨hv.subset hk.held, hk.bytes, hk.epoch, hk.current⟩
          · exact h.known_row hget hq (fun hvalid => ⟨hblocks hvalid, hiter hvalid⟩) hno
        have hnew := h.extend hs hv [σ] [] (by simpa using hk) (by simp)
        simpa [hres] using hnew
    · cases hstep

theorem retire_heads (epochs : List String) (db : Db) (views : List String) (reason : String)
    (now : Int) (v : String) : HeadStep epochs db (db.retire views reason now) v := by
  cases hv : views.contains v with
  | false =>
    refine .same ?_ fun _ _ e n => chunks_retire _ _ _ _ hv e n
    rw [get?_retire, hv]
    simp
  | true =>
    cases hold : db.rows.get? v with
    | none =>
      refine .same ?_ fun old hno => ?_
      · rw [get?_retire, hold]
        rfl
      · rw [hold] at hno
        cases hno
    | some old =>
      refine .retired old reason now hold ?_
      rw [get?_retire, hold, hv]
      rfl

theorem Sound.retire (h : w.Sound) (views : List String) (reason : String) (now : Int) :
    Sound { w with db := w.db.retire views reason now } := by
  refine h.advance (retire_heads _ _ _ _ _) (List.Subset.refl _) (fun v row hrow => ?_)
    fun chunk hc => h.chunks chunk (List.mem_of_mem_filter hc)
  rw [get?_retire] at hrow
  obtain ⟨old, hold, hrow⟩ := Option.map_eq_some_iff.mp hrow
  have he : row.epochId = old.epochId := by
    rw [← hrow]
    split <;> rfl
  rw [he]
  exact h.epochs v old hold

theorem Sound.step (h : w.Sound) {e : Event} (hstep : w.step digest e = some w') : w'.Sound := by
  cases e with
  | build call =>
    obtain ⟨hheld, hstep⟩ := Option.ite_none_right_eq_some.mp hstep
    cases hstep
    obtain ⟨hs, hv, -⟩ := act_spec h.frozen call fun q hq => by
      rw [hq] at hheld
      simpa using hheld
    have hnew := h.extend hs hv [] [] (by simp) (by simp)
    simpa using hnew
  | read viewKey previous =>
    refine h.reads (fun r hr => ?_) hstep
    have hget := (Option.filter_eq_some_iff.mp hr).1
    rwa [Table.get?_key hget]
  | readCheckpoint conversationId previous =>
    refine h.reads (fun r hr => ?_) hstep
    have hget := (Option.filter_eq_some_iff.mp hr).1
    rwa [Table.get?_key hget]
  | prepareCommit repository commit now =>
    obtain ⟨⟨hheld, hknown⟩, hstep⟩ := Option.ite_none_right_eq_some.mp hstep
    split at hstep
    · rename_i p hrun
      cases hstep
      have hp := h.prepareCommit hheld (fun σ hσ => by
        rw [hσ] at hknown
        simpa using hknown) hrun
      have hnew := h.extend h.frozen (List.prefix_refl _) [] [p] (by simp) (by simpa using hp)
      simpa using hnew
    · cases hstep
      exact h
  | publish p epoch now commits =>
    obtain ⟨⟨hp, hfresh⟩, hstep⟩ := Option.ite_none_right_eq_some.mp hstep
    split at hstep
    · rename_i db' σ hrun _
      cases hstep
      exact h.publish (h.prepared p hp) hfresh hrun
    · cases hstep
      exact h.mono_epochs epoch
  | invalidateView viewKey reason now =>
    dsimp only [World.step] at hstep
    split at hstep
    · rename_i db' hrun
      cases hstep
      obtain ⟨-, -, hrun⟩ := bind_eq_ok.mp hrun
      cases hrun
      split
      · exact h.retire [viewKey] reason now
      · exact h
    · cases hstep
      exact h
  | outside conversations privacyGeneration selections retired reason now =>
    cases hstep
    have hnew := h.retire retired reason now
    exact hnew.advance (fun _ => .same rfl fun _ _ _ _ => rfl) (List.Subset.refl _) hnew.epochs
      hnew.chunks

theorem sound_of_run {events : List Event}
    (h : Run (Steps digest) {} events w) : w.Sound :=
  h.invariant (fun _ _ _ hs hstep => hs.step hstep) sound_start

end World

end Yuki.Projection

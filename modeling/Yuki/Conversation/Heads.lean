import Yuki.Conversation.ProjectionReads

/-! What one publication does to the heads: those it makes room with are retired, its own
is extended or replaced under a new epoch, and the others stay. -/

namespace Yuki.Projection

open Frozen FrozenFragments

variable {db db' : Db} {row old : ProjectionRow} {blocks : List (List FrozenFragment)}
  {self : Repository} {p : Publication} {c : Commit} {epoch : String} {now : Int} {σ : Snapshot}

/-! Room. -/

theorem makeRoom_spec (self : Repository) (size : Nat) (rows : List ProjectionRow) :
    ∃ taken kept, rows = taken ++ kept ∧
      makeRoom self size rows (rows.map (·.byteSize)).sum rows.length =
        ⟨taken.map (·.viewKey), (kept.map (·.byteSize)).sum, kept.length⟩ := by
  induction rows with
  | nil => exact ⟨[], [], rfl, rfl⟩
  | cons victim rest ih =>
    rw [makeRoom]
    split
    · exact ⟨[], victim :: rest, rfl, rfl⟩
    · obtain ⟨taken, kept, hrest, hroom⟩ := ih
      refine ⟨victim :: taken, kept, by rw [hrest, List.cons_append], ?_⟩
      have hused : ((victim :: rest).map (·.byteSize)).sum - victim.byteSize =
          (rest.map (·.byteSize)).sum := by
        rw [List.map_cons, List.sum_cons, Nat.add_sub_cancel_left]
      rw [hused, List.length_cons, Nat.add_sub_cancel, hroom]
      rfl

theorem viewKey_inj {r s : ProjectionRow} (hr : r ∈ db.rows.rows) (hs : s ∈ db.rows.rows)
    (h : r.viewKey = s.viewKey) : r = s :=
  List.inj_on_of_nodup_map db.rows.nodup hr hs h

theorem mem_others {viewKey : String} {r : ProjectionRow} : r ∈ db.others viewKey ↔
    r ∈ db.rows.rows ∧ r.viewKey ≠ viewKey ∧ r.invalidatedReason = none := by
  simp [Db.others]

/-- The victims are other valid views, and the room counts the views that stay. -/
theorem roomFor_spec (self : Repository) (db : Db) (viewKey : String) (size : Nat) :
    (∀ v ∈ (roomFor self db viewKey size).victims, ∃ r ∈ db.others viewKey, r.viewKey = v) ∧
    (roomFor self db viewKey size).used = (((db.others viewKey).filter fun r =>
      !(roomFor self db viewKey size).victims.contains r.viewKey).map (·.byteSize)).sum ∧
    (roomFor self db viewKey size).views = ((db.others viewKey).filter fun r =>
      !(roomFor self db viewKey size).victims.contains r.viewKey).length := by
  unfold roomFor
  dsimp only
  split
  · have hperm : ((db.others viewKey).mergeSort olderThan).Perm (db.others viewKey) :=
      List.mergeSort_perm _ _
    obtain ⟨taken, kept, hsplit, hroom⟩ :=
      makeRoom_spec self size ((db.others viewKey).mergeSort olderThan)
    rw [(hperm.map _).sum_eq, hperm.length_eq] at hroom
    rw [hroom]
    have hnodup : ((taken ++ kept).map (·.viewKey)).Nodup := by
      rw [← hsplit]
      exact (hperm.map _).nodup_iff.mpr
        ((List.filter_sublist.map _).nodup db.rows.nodup)
    rw [List.map_append, List.nodup_append] at hnodup
    have hkept : (taken ++ kept).filter (fun r => !(taken.map (·.viewKey)).contains r.viewKey) =
        kept := by
      rw [List.filter_append]
      have htaken : taken.filter (fun r => !(taken.map (·.viewKey)).contains r.viewKey) = [] :=
        List.filter_eq_nil_iff.mpr fun r hr => by
          simp only [List.contains_eq_mem, List.mem_map_of_mem hr, decide_true, Bool.not_true]
          exact Bool.false_ne_true
      rw [htaken, List.nil_append]
      refine List.filter_eq_self.mpr fun r hr => ?_
      have hno : r.viewKey ∉ taken.map (·.viewKey) := fun hin =>
        hnodup.2.2 _ hin _ (List.mem_map_of_mem hr) rfl
      simp only [List.contains_eq_mem, hno, decide_false, Bool.not_false]
    have hfilter : ((db.others viewKey).filter fun r =>
        !(taken.map (·.viewKey)).contains r.viewKey).Perm kept := by
      have := (hperm.filter fun r => !(taken.map (·.viewKey)).contains r.viewKey).symm
      rwa [hsplit, hkept] at this
    refine ⟨fun v hv => ?_, ((hfilter.map _).sum_eq).symm, hfilter.length_eq.symm⟩
    obtain ⟨r, hr, rfl⟩ := List.mem_map.mp hv
    refine ⟨r, hperm.subset ?_, rfl⟩
    rw [hsplit]
    exact List.mem_append_left _ hr
  · refine ⟨fun v hv => absurd hv List.not_mem_nil, ?_, ?_⟩
    · simp
    · simp

/-! Tables. -/

theorem get?_retire (db : Db) (views : List String) (reason : String) (now : Int) (v : String) :
    (db.retire views reason now).rows.get? v =
      (db.rows.get? v).map fun r => if views.contains v then r.retired reason now else r := by
  rw [Db.retire, Table.get?_update]
  cases hv : db.rows.get? v with
  | none => rfl
  | some r => rw [Option.map_some, Option.map_some, Table.get?_key hv]

theorem chunks_retire (db : Db) (views : List String) (reason : String) (now : Int)
    {v : String} (hv : views.contains v = false) (e : String) (n : Nat) :
    (db.retire views reason now).chunks.get? (v, e, n) = db.chunks.get? (v, e, n) := by
  rw [Db.retire, Table.get?_delete]
  cases hc : db.chunks.get? (v, e, n) with
  | none => rfl
  | some chunk =>
    have hkey : chunk.viewKey = v := congrArg (·.1) (Table.get?_key hc)
    rw [Option.filter_some, hkey, hv]
    rfl

theorem get?_putHead (db : Db) (row : ProjectionRow) (v : String) :
    (db.putHead row).rows.get? v = if v = row.viewKey then some row else db.rows.get? v := by
  unfold Db.putHead Table.upsert
  dsimp only
  split
  · rename_i hin
    rw [Table.get?_update]
    obtain ⟨old, hold⟩ := Table.get?_isSome.mpr hin
    by_cases hv : v = row.viewKey
    · subst hv
      have hkey := Table.get?_key hold
      rw [hold, Option.map_some, if_pos rfl, hkey]
      simp
    · rw [if_neg hv]
      cases hg : db.rows.get? v with
      | none => rfl
      | some r =>
        have hne : r.viewKey ≠ row.viewKey := fun he => hv ((Table.get?_key hg).symm.trans he)
        simp [hne]
  · rename_i hin
    have hnone := Table.get?_eq_none.mpr hin
    rw [Table.get?_insert]
    by_cases hv : v = row.viewKey
    · subst hv
      rw [hnone, if_pos rfl, Option.none_or]
    · rw [if_neg fun he => hv he.symm, if_neg hv, Option.or_none]

theorem get?_putHead_row (db : Db) (p : Publication) (o : Option ProjectionRow) (epoch : String)
    (now : Int) :
    (db.putHead (p.row o epoch now)).rows.get? p.commit.viewKey = some (p.row o epoch now) := by
  rw [get?_putHead]
  exact if_pos rfl

theorem chunks_putHead_other (db : Db) (row : ProjectionRow) {v : String} (hv : v ≠ row.viewKey)
    (e : String) (n : Nat) : (db.putHead row).chunks.get? (v, e, n) = db.chunks.get? (v, e, n) := by
  unfold Db.putHead
  dsimp only
  split
  · rw [Table.get?_delete]
    cases hc : db.chunks.get? (v, e, n) with
    | none => rfl
    | some chunk =>
      have hkey : chunk.viewKey = v := congrArg (·.1) (Table.get?_key hc)
      simp [hkey, hv]
  · rfl

theorem chunks_putHead_same (h : db.rows.get? row.viewKey = some old)
    (he : row.epochId = old.epochId) : (db.putHead row).chunks = db.chunks := by
  unfold Db.putHead
  simp [h, he]

theorem chunks_putHead_sub {chunk : ChunkRow} (h : chunk ∈ (db.putHead row).chunks.rows) :
    chunk ∈ db.chunks.rows := by
  unfold Db.putHead at h
  dsimp only at h
  split at h
  · exact List.mem_of_mem_filter h
  · exact h

theorem insertChunks_spec {viewKey epochId : String} {k : Nat} {payloads : List (List Item)}
    {chunks chunks' : Table ChunkRow.key}
    (h : insertChunks viewKey epochId k payloads chunks = .ok chunks') :
    (∀ i, chunks'.get? (viewKey, epochId, k + i) =
      (payloads[i]?.map fun payload => ⟨viewKey, epochId, k + i, payload⟩).or
        (chunks.get? (viewKey, epochId, k + i))) ∧
    (∀ key, (∀ i, key ≠ (viewKey, epochId, k + i)) → chunks'.get? key = chunks.get? key) ∧
    ∀ chunk ∈ chunks'.rows, chunk ∈ chunks.rows ∨ chunk.epochId = epochId := by
  induction payloads generalizing k chunks with
  | nil =>
    cases h
    exact ⟨fun i => by simp, fun key _ => rfl, fun chunk hc => Or.inl hc⟩
  | cons payload rest ih =>
    obtain ⟨u, hfree, h⟩ := bind_eq_ok.mp h
    rw [require_eq_ok] at hfree
    obtain ⟨hat, hother, hmem⟩ := ih h
    have hput : ∀ key, (chunks.insert ⟨viewKey, epochId, k, payload⟩).get? key =
        (chunks.get? key).or
          (if (viewKey, epochId, k) = key then some ⟨viewKey, epochId, k, payload⟩ else none) :=
      fun key => Table.get?_insert chunks _ key
    refine ⟨fun i => ?_, fun key hkey => ?_, fun chunk hc => ?_⟩
    · cases i with
      | zero =>
        rw [hother _ fun i he => by
          have := congrArg (·.2.2) he
          simp only at this
          omega, hput, Nat.add_zero, hfree, if_pos rfl]
        rfl
      | succ i =>
        have hk : k + (i + 1) = k + 1 + i := by omega
        have hne : (viewKey, epochId, k) ≠ (viewKey, epochId, k + 1 + i) := fun he => by
          have := congrArg (·.2.2) he
          simp only at this
          omega
        rw [hk, hat i, hput, if_neg hne, Option.or_none, List.getElem?_cons_succ]
    · have hk := hkey 0
      rw [Nat.add_zero] at hk
      rw [hother key fun i he => hkey (i + 1) (he.trans (by rw [Nat.add_assoc, Nat.add_comm 1 i])),
        hput, if_neg fun he => hk he.symm, Option.or_none]
    · rcases hmem chunk hc with hc | hc
      · rcases Table.mem_insert.mp hc with hc | ⟨rfl, -⟩
        · exact Or.inl hc
        · exact Or.inr rfl
      · exact Or.inr hc

/-! The valid heads. -/

def Db.valid (db : Db) : List ProjectionRow :=
  db.rows.rows.filter (·.invalidatedReason.isNone)

/-- A map that changes no selected row leaves the selection. -/
theorem filter_map_of_fixed {α : Type} {p q : α → Bool} {f : α → α} {xs : List α}
    (hp : ∀ x ∈ xs, p (f x) = q x) (hf : ∀ x ∈ xs, q x = true → f x = x) :
    (xs.map f).filter p = xs.filter q := by
  have hsame : xs.filter (p ∘ f) = xs.filter q := List.filter_congr hp
  rw [List.filter_map, hsame]
  refine (List.map_congr_left fun x hx => ?_).trans (List.map_id _)
  obtain ⟨hx, hq⟩ := List.mem_filter.mp hx
  exact hf x hx hq

theorem others_putHead (db : Db) (row : ProjectionRow) :
    (db.putHead row).others row.viewKey = db.others row.viewKey := by
  unfold Db.putHead Db.others Table.upsert
  dsimp only
  split
  · rw [Table.rows_update]
    refine filter_map_of_fixed (fun r _ => ?_) fun r _ hr => ?_
    · by_cases hk : r.viewKey = row.viewKey <;> simp [hk]
    · simp only [Bool.and_eq_true, decide_eq_true_eq] at hr
      simp [hr.1]
  · rename_i hin
    rw [Table.insert, dif_neg hin, List.filter_append]
    simp

theorem others_retire (db : Db) (views : List String) (reason : String) (now : Int) (v : String) :
    (db.retire views reason now).others v =
      (db.others v).filter fun r => !views.contains r.viewKey := by
  rw [Db.others, Db.others, List.filter_filter, Db.retire, Table.rows_update]
  refine filter_map_of_fixed (fun r _ => ?_) fun r _ hr => ?_
  · by_cases hv : views.contains r.viewKey = true
    · simp only [hv, if_true]
      simp [ProjectionRow.retired]
    · simp only [Bool.not_eq_true] at hv
      simp only [hv, Bool.false_eq_true, if_false, Bool.not_false, Bool.true_and]
  · simp only [Bool.and_eq_true, Bool.not_eq_true'] at hr
    rw [if_neg (by rw [hr.1]; exact Bool.false_ne_true)]

/-- The valid heads are one and the others. -/
theorem valid_perm {v : String} (h : db.rows.get? v = some row)
    (hvalid : row.invalidatedReason = none) : db.valid.Perm (row :: db.others v) := by
  obtain ⟨hmem, hkey⟩ := Table.get?_eq_some.mp h
  have hone : db.valid.filter (fun r => decide (r.viewKey = v)) = [row] := by
    have hlen := Table.length_filter_key db.rows v
    rw [h, Option.isSome_some, if_pos rfl] at hlen
    obtain ⟨r, hr⟩ := List.length_eq_one_iff.mp hlen
    have hin : row ∈ db.rows.rows.filter fun r => decide (r.viewKey = v) :=
      List.mem_filter.mpr ⟨hmem, decide_eq_true hkey⟩
    rw [hr, List.mem_singleton] at hin
    have hcomm : db.valid.filter (fun r => decide (r.viewKey = v)) =
        (db.rows.rows.filter fun r => decide (r.viewKey = v)).filter
          (·.invalidatedReason.isNone) := by
      rw [Db.valid, List.filter_filter, List.filter_filter]
      exact List.filter_congr fun r _ => Bool.and_comm _ _
    rw [hcomm, hr, ← hin]
    simp [hvalid]
  have hothers : db.valid.filter (fun r => !decide (r.viewKey = v)) = db.others v := by
    rw [Db.valid, Db.others, List.filter_filter]
    exact List.filter_congr fun r _ => by simp
  have hsplit := (List.filter_append_perm (fun r => decide (r.viewKey = v)) db.valid).symm
  rwa [hone, hothers] at hsplit

/-- The heads after room was made and one was written keep to the budgets. -/
theorem valid_written (row : ProjectionRow) (self : Repository) (db : Db) (reason : String)
    (now : Int)
    (hvalid : row.invalidatedReason = none) {size : Nat} (hsize : row.byteSize = size)
    (hroom : (roomFor self db row.viewKey size).used + size ≤ self.totalBytes ∧
      (roomFor self db row.viewKey size).views < self.maximumViews) :
    ((((db.retire (roomFor self db row.viewKey size).victims reason now).putHead row).valid.map
      (·.byteSize)).sum ≤ self.totalBytes) ∧
    ((db.retire (roomFor self db row.viewKey size).victims reason now).putHead row).valid.length ≤
      self.maximumViews := by
  obtain ⟨-, hused, hviews⟩ := roomFor_spec self db row.viewKey size
  rw [hused, hviews] at hroom
  have hget : ((db.retire (roomFor self db row.viewKey size).victims reason now).putHead
      row).rows.get? row.viewKey = some row := by rw [get?_putHead, if_pos rfl]
  have hperm := valid_perm hget hvalid
  rw [others_putHead, others_retire] at hperm
  rw [(hperm.map _).sum_eq, hperm.length_eq, List.map_cons, List.sum_cons, List.length_cons, hsize]
  exact ⟨by omega, by omega⟩

/-! One publication. -/

theorem requireHead_cases {o : Option ProjectionRow} {u : Unit} (h : requireHead c o = .ok u) :
    (o = none ∧ c.rebuildReason ≠ none) ∨
    ∃ old, o = some old ∧ ¬ newerCheckpoint c old ∧ (c.rebuildReason = none →
      c.previousSnapshot.map (·.prefixStamp) = some (prefixVersion old) ∧
      old.invalidatedReason = none) := by
  cases o with
  | none => exact Or.inl ⟨rfl, (require_eq_ok.mp h).2.2⟩
  | some old =>
    simp only [requireHead, bind_eq_ok, require_eq_ok] at h
    obtain ⟨-, -, -, hnewer, -, hstamp, -, hhead, -⟩ := h
    exact Or.inr ⟨old, rfl, hnewer, fun hr =>
      ⟨hstamp hr, congrArg (·.1) (hhead hr)⟩⟩

/-- A publication that returns found nothing to write, or made room and wrote its head. -/
theorem publish_cases (h : publish db p epoch now = .ok (db', σ)) :
    requireHead p.commit (db.rows.get? p.commit.viewKey) = .ok () ∧
    ((p.writes (db.rows.get? p.commit.viewKey) = false ∧ db' = db ∧
        p.commit.previousSnapshot = some σ) ∨
      (p.writes (db.rows.get? p.commit.viewKey) = true ∧
        ((roomFor p.repository db p.commit.viewKey p.size).used + p.size ≤
            p.repository.totalBytes ∧
          (roomFor p.repository db p.commit.viewKey p.size).views < p.repository.maximumViews) ∧
        σ = snapshot (p.row (db.rows.get? p.commit.viewKey) epoch now) p.commit.fragments ∧
        ∃ chunks selections,
          insertChunks p.commit.viewKey (p.row (db.rows.get? p.commit.viewKey) epoch now).epochId
            (p.tail + 1) p.encoded ((db.retire
              (roomFor p.repository db p.commit.viewKey p.size).victims "capacity" now).putHead
                (p.row (db.rows.get? p.commit.viewKey) epoch now)).chunks = .ok chunks ∧
          db' = { (db.retire (roomFor p.repository db p.commit.viewKey p.size).victims "capacity"
            now).putHead (p.row (db.rows.get? p.commit.viewKey) epoch now) with
              chunks := chunks, selections := selections })) := by
  unfold publish at h
  obtain ⟨-, -, h⟩ := bind_eq_ok.mp h
  obtain ⟨-, -, h⟩ := bind_eq_ok.mp h
  obtain ⟨-, -, h⟩ := bind_eq_ok.mp h
  obtain ⟨u, hhead, h⟩ := bind_eq_ok.mp h
  refine ⟨hhead, ?_⟩
  split at h
  · rename_i hwrites
    obtain ⟨u', hroom, h⟩ := bind_eq_ok.mp h
    obtain ⟨chunks, hchunks, h⟩ := bind_eq_ok.mp h
    obtain ⟨selections, -, h⟩ := bind_eq_ok.mp h
    cases h
    exact Or.inr ⟨hwrites, require_eq_ok.mp hroom, rfl, chunks, selections, hchunks, rfl⟩
  · rename_i hwrites
    obtain ⟨previous, hprevious, h⟩ := bind_eq_ok.mp h
    cases h
    exact Or.inl ⟨Bool.eq_false_of_not_eq_true hwrites, rfl, expect_eq_ok.mp hprevious⟩

theorem Db.Stored.unique {blocks' : List (List FrozenFragment)} (h : db.Stored row blocks)
    (h' : db.Stored row blocks') : blocks = blocks' := by
  have hinj : Function.Injective item := fun f g hfg => by
    have hload := (loadItem_item f).symm.trans ((congrArg loadItem hfg).trans (loadItem_item g))
    exact Except.ok.inj hload
  refine List.map_injective_iff.mpr (List.map_injective_iff.mpr hinj)
    (List.ext_getElem? fun n => ?_)
  have hn := (h.chunks n).symm.trans (h'.chunks n)
  have hpayload := congrArg (Option.map ChunkRow.payload) hn
  rw [Option.map_map, Option.map_map] at hpayload
  rw [List.getElem?_map, List.getElem?_map]
  exact hpayload

theorem chunks_insert {viewKey epochId : String} {added : List (List FrozenFragment)}
    {chunks chunks' : Table ChunkRow.key} (blocks : List (List FrozenFragment))
    (hold : ∀ n, chunks.get? (viewKey, epochId, n + 1) =
      blocks[n]?.map fun block => ⟨viewKey, epochId, n + 1, block.map item⟩)
    (h : insertChunks viewKey epochId (blocks.length + 1) (added.map (·.map item)) chunks =
      .ok chunks') (n : Nat) :
    chunks'.get? (viewKey, epochId, n + 1) =
      (blocks ++ added)[n]?.map fun block => ⟨viewKey, epochId, n + 1, block.map item⟩ := by
  obtain ⟨hat, hother, -⟩ := insertChunks_spec h
  by_cases hn : n < blocks.length
  · rw [hother _ fun i he => by
      have := congrArg (·.2.2) he
      simp only at this
      omega, hold, List.getElem?_append_left hn]
  · obtain ⟨i, rfl⟩ := Nat.exists_eq_add_of_le (Nat.not_lt.mp hn)
    have hk : blocks.length + i + 1 = blocks.length + 1 + i := by omega
    have hnone : blocks[blocks.length + i]? = none := List.getElem?_eq_none (by omega)
    have hfree := hold (blocks.length + i)
    rw [hnone, Option.map_none, hk] at hfree
    rw [hk, hat i, hfree, Option.or_none, List.getElem?_append_right (by omega),
      Nat.add_sub_cancel_left, List.getElem?_map, Option.map_map]
    rfl

/-- What the new blocks of a publication come behind, and that its sizes are right. -/
structure Publication.Carries (p : Publication) (before : List FrozenFragment)
    (added : List (List FrozenFragment)) : Prop where
  fragments : p.commit.fragments.iterFragments = before ++ added.flatten
  encoded : p.encoded = added.map (·.map item)
  size : p.size = bytesOf p.commit.fragments.iterFragments
  count : p.count = p.commit.fragments.iterFragments.length

/-- What a step may do to the head of one view. -/
inductive HeadStep (epochs : List String) (db db' : Db) (v : String) : Prop
  | same (head : db'.rows.get? v = db.rows.get? v)
      (chunks : ∀ old, db.rows.get? v = some old → ∀ e n,
        db'.chunks.get? (v, e, n) = db.chunks.get? (v, e, n))
  | retired (old : ProjectionRow) (reason : String) (now : Int)
      (head : db.rows.get? v = some old) (head' : db'.rows.get? v = some (old.retired reason now))
  | extended (old row : ProjectionRow) (added : List (List FrozenFragment))
      (head : db.rows.get? v = some old) (head' : db'.rows.get? v = some row)
      (was : old.invalidatedReason = none) (valid : row.invalidatedReason = none)
      (epoch : row.epochId = old.epochId) (revision : row.revision = old.revision + 1)
      (summary : old.summary.Present →
        (row.generation, row.startsAfterEventId, row.sourceRevision) =
          (old.generation, old.startsAfterEventId, old.sourceRevision) →
        old.summary.coverage ≤ row.summary.coverage)
      (stored : ∀ blocks, db.Stored old blocks → db'.Stored row (blocks ++ added))
  | rebuilt (row : ProjectionRow) (blocks : List (List FrozenFragment))
      (head' : db'.rows.get? v = some row) (valid : row.invalidatedReason = none)
      (epoch : row.epochId ∉ epochs)
      (summary : ∀ old, db.rows.get? v = some old → old.summary.Present →
        (row.generation, row.startsAfterEventId, row.sourceRevision) =
          (old.generation, old.startsAfterEventId, old.sourceRevision) →
        old.summary.coverage ≤ row.summary.coverage)
      (stored : db'.Stored row blocks)

theorem not_newerCheckpoint (h : ¬ newerCheckpoint c old) (hp : old.summary.Present)
    (hh : (c.generation, c.startsAfterEventId, c.expectedSourceRevision) =
      (old.generation, old.startsAfterEventId, old.sourceRevision)) :
    old.summary.coverage ≤ c.summary.coverage := by
  by_contra hlt
  exact h ⟨hp, hh.symm, Or.inl (Int.not_le.mp hlt)⟩

end Yuki.Projection

import Yuki.Memory.EmbeddingTokens

/-! The vectors of a profile: one row for a fact, written only for a claim in
force and with the hash of the text the fact has at that moment. -/

namespace Yuki.Embedding

open JobRepository

/-- The metadata and raw rows of a profile. -/
structure Vectors (r : JobRepository) (s : Store) : Prop where
  unique : ∀ a ∈ s.embeddings.rows, ∀ b ∈ s.embeddings.rows, a.factId = b.factId →
    a.profileId = b.profileId → a.id = b.id
  below : ∀ row ∈ s.embeddings.rows, row.id < s.nextEmbeddingId
  owned : ∀ v ∈ s.vectors, ∃ row ∈ s.embeddings.rows, row.id = v.rowid ∧ row.factId = v.factId ∧
    row.profileId = r.profile
  rowids : (s.vectors.map (·.rowid)).Nodup

variable {r : JobRepository} {s : Store}

theorem Vectors.congr (h : Vectors r s) {s' : Store} (he : s'.embeddings = s.embeddings)
    (hn : s'.nextEmbeddingId = s.nextEmbeddingId) (hv : s'.vectors = s.vectors) : Vectors r s' where
  unique := he ▸ h.unique
  below := by rw [he, hn]; exact h.below
  owned := by rw [he, hv]; exact h.owned
  rowids := hv ▸ h.rowids

theorem eq_of_rowid (s : Store) {a b : EmbeddingRow} (ha : a ∈ s.embeddings.rows)
    (hb : b ∈ s.embeddings.rows) (h : a.id = b.id) : a = b :=
  List.inj_on_of_nodup_map s.embeddings.nodup ha hb h

theorem embeddingOf_some {factId : Nat} {row : EmbeddingRow} (h : r.embeddingOf s factId = some row) :
    row ∈ s.embeddings.rows ∧ row.factId = factId ∧ row.profileId = r.profile := by
  have hp := List.find?_some h
  simp only [decide_eq_true_eq] at hp
  exact ⟨List.mem_of_find?_eq_some h, hp⟩

/-- What storing the metadata of one record does to the rows. -/
structure MetadataStored (r : JobRepository) (s s' : Store) (record : VectorRecord) (id : Nat) :
    Prop where
  vectors : s'.vectors = s.vectors
  others : ∀ row, row.factId ≠ record.factId ∨ row.profileId ≠ r.profile →
    (row ∈ s'.embeddings.rows ↔ row ∈ s.embeddings.rows)
  keys : ∀ row ∈ s.embeddings.rows, ∃ row' ∈ s'.embeddings.rows, row'.id = row.id ∧
    row'.factId = row.factId ∧ row'.profileId = row.profileId
  stored : ∃ row ∈ s'.embeddings.rows, row.id = id ∧ row.factId = record.factId ∧
    row.profileId = r.profile ∧ row.contentHash = record.contentHash
  unique : ∀ a ∈ s'.embeddings.rows, ∀ b ∈ s'.embeddings.rows, a.factId = b.factId →
    a.profileId = b.profileId → a.id = b.id
  below : ∀ row ∈ s'.embeddings.rows, row.id < s'.nextEmbeddingId

theorem storeMetadata_stored (h : Vectors r s) (record : VectorRecord) :
    MetadataStored r s (r.storeMetadata s record).1 record (r.storeMetadata s record).2.1 := by
  unfold JobRepository.storeMetadata
  cases he : r.embeddingOf s record.factId with
  | some row =>
    obtain ⟨hrow, hf, hp⟩ := embeddingOf_some he
    have hrows : ∀ row' ∈ (s.embeddings.update (fun e => decide (e.id = row.id)) fun e =>
        { e with contentHash := record.contentHash, updatedAt := record.stamp }).rows,
        ∃ a ∈ s.embeddings.rows, (a.id ≠ row.id ∧ row' = a) ∨ (a.id = row.id ∧
          row' = { a with contentHash := record.contentHash, updatedAt := record.stamp }) := by
      intro row' hm
      obtain ⟨a, ha, rfl⟩ := List.mem_map.1 hm
      by_cases hid : a.id = row.id
      · exact ⟨a, ha, .inr ⟨hid, by simp [hid]⟩⟩
      · exact ⟨a, ha, .inl ⟨hid, by simp [hid]⟩⟩
    have hkeys : ∀ row' ∈ (s.embeddings.update (fun e => decide (e.id = row.id)) fun e =>
        { e with contentHash := record.contentHash, updatedAt := record.stamp }).rows,
        ∃ a ∈ s.embeddings.rows, row'.id = a.id ∧ row'.factId = a.factId ∧
          row'.profileId = a.profileId := by
      intro row' hm
      obtain ⟨a, ha, ⟨-, rfl⟩ | ⟨-, rfl⟩⟩ := hrows row' hm
      · exact ⟨row', ha, rfl, rfl, rfl⟩
      · exact ⟨a, ha, rfl, rfl, rfl⟩
    refine ⟨rfl, ?_, ?_, ?_, ?_, ?_⟩
    · intro b hb
      constructor
      · intro hm
        obtain ⟨a, ha, ⟨-, rfl⟩ | ⟨hid, rfl⟩⟩ := hrows b hm
        · exact ha
        · obtain rfl := eq_of_rowid s ha hrow hid
          exact absurd hb (by simp [hf, hp])
      · intro hm
        have hne : b.id ≠ row.id := by
          intro hid
          obtain rfl := eq_of_rowid s hm hrow hid
          simp [hf, hp] at hb
        exact List.mem_map.2 ⟨b, hm, by simp [hne]⟩
    · intro a ha
      refine ⟨_, List.mem_map_of_mem ha, ?_⟩
      by_cases hid : a.id = row.id <;> simp [hid]
    · exact ⟨_, List.mem_map_of_mem hrow, by simp, by simp [hf], by simp [hp], by simp⟩
    · intro a ha b hb hfact hprof
      obtain ⟨a0, ha0, hia, hfa, hpa⟩ := hkeys a ha
      obtain ⟨b0, hb0, hib, hfb, hpb⟩ := hkeys b hb
      rw [hia, hib]
      exact h.unique a0 ha0 b0 hb0 (by rw [← hfa, ← hfb, hfact]) (by rw [← hpa, ← hpb, hprof])
    · intro a ha
      obtain ⟨a0, ha0, hia, -, -⟩ := hkeys a ha
      exact hia ▸ h.below a0 ha0
  | none =>
    have hfresh : ∀ a ∈ s.embeddings.rows, a.factId = record.factId → a.profileId ≠ r.profile := by
      intro a ha hfa hpa
      have hn := List.find?_eq_none.1 he a ha
      simp [hfa, hpa] at hn
    have hid : s.nextEmbeddingId ∉ s.embeddings.rows.map EmbeddingRow.id := by
      intro hm
      obtain ⟨a, ha, hida⟩ := List.mem_map.1 hm
      exact Nat.lt_irrefl _ (hida ▸ h.below a ha)
    have hmem : ∀ a, a ∈ (s.embeddings.insert
        { id := s.nextEmbeddingId, factId := record.factId, profileId := r.profile
          contentHash := record.contentHash, createdAt := record.stamp
          updatedAt := record.stamp }).rows ↔ a ∈ s.embeddings.rows ∨
        a = { id := s.nextEmbeddingId, factId := record.factId, profileId := r.profile
              contentHash := record.contentHash, createdAt := record.stamp
              updatedAt := record.stamp } := by
      intro a
      rw [Table.mem_insert]
      exact or_congr_right (and_iff_left hid)
    refine ⟨rfl, ?_, ?_, ?_, ?_, ?_⟩
    · intro b hb
      rw [hmem]
      refine or_iff_left ?_
      rintro rfl
      simp at hb
    · exact fun a ha => ⟨a, (hmem a).2 (.inl ha), rfl, rfl, rfl⟩
    · exact ⟨_, (hmem _).2 (.inr rfl), rfl, rfl, rfl, rfl⟩
    · intro a ha b hb hfact hprof
      obtain ha | ha := (hmem a).1 ha <;> obtain hb | hb := (hmem b).1 hb
      · exact h.unique a ha b hb hfact hprof
      · subst hb
        exact absurd hprof (hfresh a ha hfact)
      · subst ha
        exact absurd hprof.symm (hfresh b hb hfact.symm)
      · rw [ha, hb]
    · intro a ha
      obtain ha | rfl := (hmem a).1 ha
      · exact Nat.lt_succ_of_lt (h.below a ha)
      · exact Nat.lt_succ_self s.nextEmbeddingId

theorem Vectors.storeMetadata (h : Vectors r s) (record : VectorRecord) :
    Vectors r (r.storeMetadata s record).1 := by
  have hm := storeMetadata_stored h record
  refine ⟨hm.unique, hm.below, ?_, hm.vectors ▸ h.rowids⟩
  rw [hm.vectors]
  intro v hv
  obtain ⟨row, hrow, hid, hf, hp⟩ := h.owned v hv
  obtain ⟨row', hrow', hid', hf', hp'⟩ := hm.keys row hrow
  exact ⟨row', hrow', hid'.trans hid, hf'.trans hf, hp'.trans hp⟩

/-- All the metadata of a page: the ids it returns are those of its facts. -/
structure AllStored (r : JobRepository) (s s' : Store) (records : List VectorRecord)
    (accepted : List (Nat × Nat)) : Prop where
  vectors : s'.vectors = s.vectors
  facts : accepted.map (·.2) = records.map (·.factId)
  others : ∀ row, row.factId ∉ records.map (·.factId) ∨ row.profileId ≠ r.profile →
    (row ∈ s'.embeddings.rows ↔ row ∈ s.embeddings.rows)
  stored : ∀ record ∈ records, ∃ row ∈ s'.embeddings.rows, (row.id, record.factId) ∈ accepted ∧
    row.factId = record.factId ∧ row.profileId = r.profile ∧ row.contentHash = record.contentHash
  ids : ∀ c ∈ accepted, ∃ row ∈ s'.embeddings.rows, row.id = c.1 ∧ row.factId = c.2 ∧
    row.profileId = r.profile
  inv : Vectors r s'

theorem storeAllMetadata_stored (h : Vectors r s) {records : List VectorRecord}
    (hd : (records.map (·.factId)).Nodup) :
    AllStored r s (r.storeAllMetadata s records).1 records (r.storeAllMetadata s records).2 := by
  induction records generalizing s with
  | nil => exact ⟨rfl, rfl, by simp [JobRepository.storeAllMetadata], by simp, by
      simp [JobRepository.storeAllMetadata], h⟩
  | cons record records ih =>
    have hm := storeMetadata_stored h record
    have hnd : record.factId ∉ records.map (·.factId) ∧ (records.map (·.factId)).Nodup := by
      simpa only [List.map_cons, List.nodup_cons] using hd
    have hrest := ih (h.storeMetadata record) hnd.2
    obtain ⟨row, hrow, hid, hf, hp, hhash⟩ := hm.stored
    have hkept : row ∈ (r.storeAllMetadata (r.storeMetadata s record).1 records).1.embeddings.rows :=
      (hrest.others row (.inl (hf ▸ hnd.1))).2 hrow
    have hfactId : (r.storeMetadata s record).2.2 = record.factId := by
      unfold JobRepository.storeMetadata
      split <;> rfl
    have hhead : (r.storeMetadata s record).2 = (row.id, record.factId) :=
      Prod.ext hid.symm hfactId
    simp only [JobRepository.storeAllMetadata]
    refine ⟨hrest.vectors.trans hm.vectors, ?_, ?_, ?_, ?_, hrest.inv⟩
    · rw [List.map_cons, List.map_cons, hrest.facts, hfactId]
    · intro a ha
      rw [hrest.others a, hm.others a]
      · exact ha.imp (fun hn => by simp only [List.map_cons, List.mem_cons, not_or] at hn; exact hn.1) id
      · exact ha.imp (fun hn => by simp only [List.map_cons, List.mem_cons, not_or] at hn; exact hn.2) id
    · intro rec hrec
      obtain rfl | hrec := List.mem_cons.1 hrec
      · exact ⟨row, hkept, by simp [hhead], hf, hp, hhash⟩
      · obtain ⟨b, hb, hmem, hb'⟩ := hrest.stored rec hrec
        exact ⟨b, hb, List.mem_cons_of_mem _ hmem, hb'⟩
    · intro c hc
      obtain rfl | hc := List.mem_cons.1 hc
      · exact ⟨row, hkept, by rw [hhead], by rw [hhead]; exact hf, hp⟩
      · exact hrest.ids c hc

theorem nodup_ids {s' : Store} {records : List VectorRecord} {accepted : List (Nat × Nat)}
    (h : AllStored r s s' records accepted) (hd : (records.map (·.factId)).Nodup) :
    (accepted.map (·.1)).Nodup := by
  rw [← h.facts] at hd
  unfold List.Nodup at hd ⊢
  rw [List.pairwise_map] at hd ⊢
  refine hd.imp_of_mem fun {c d} hc hd' hne he => hne ?_
  obtain ⟨a, ha, hida, hfa, -⟩ := h.ids c hc
  obtain ⟨b, hb, hidb, hfb, -⟩ := h.ids d hd'
  obtain rfl := eq_of_rowid s' ha hb (hida.trans (he.trans hidb.symm))
  exact hfa.symm.trans hfb

/-- The publications of a page, once stored. -/
structure PageStored (r : JobRepository) (s s' : Store) (records : List VectorRecord) : Prop where
  inv : Vectors r s'
  stored : ∀ record ∈ records, ∃ row ∈ s'.embeddings.rows, row.factId = record.factId ∧
    row.profileId = r.profile ∧ row.contentHash = record.contentHash ∧
    { rowid := row.id, factId := record.factId, vector := record.vectorBlob } ∈ s'.vectors
  others : ∀ row, row.factId ∉ records.map (·.factId) →
    (row ∈ s'.embeddings.rows ↔ row ∈ s.embeddings.rows)
  otherVectors : ∀ v, v.factId ∉ records.map (·.factId) → (v ∈ s'.vectors ↔ v ∈ s.vectors)

theorem storeVectors_stored (h : Vectors r s) {records : List VectorRecord}
    (hd : (records.map (·.factId)).Nodup) : PageStored r s (r.storeVectors s records) records := by
  have ha := storeAllMetadata_stored h hd
  have hkeys : Dict.keys (records.map fun record => (record.factId, record.vectorBlob)) =
      records.map (·.factId) := by simp [Dict.keys, Function.comp_def]
  have hpay : ∀ record ∈ records, (Dict.ofList (records.map fun record =>
      (record.factId, record.vectorBlob))).lookup record.factId = some record.vectorBlob := by
    intro record hr
    rw [Dict.ofList_of_nodup (hkeys ▸ hd)]
    exact Dict.lookup_of_mem (hkeys ▸ hd) (List.mem_map.2 ⟨record, hr, rfl⟩)
  have hmem : ∀ v, v ∈ (r.storeVectors s records).vectors ↔
      (v ∈ s.vectors ∧ v.rowid ∉ (r.storeAllMetadata s records).2.map (·.1)) ∨
      ∃ record ∈ records, (v.rowid, record.factId) ∈ (r.storeAllMetadata s records).2 ∧
        v = { rowid := v.rowid, factId := record.factId, vector := record.vectorBlob } := by
    intro v
    simp only [JobRepository.storeVectors, List.mem_append, List.mem_filter, decide_eq_true_eq,
      List.mem_filterMap, Option.map_eq_some_iff, ha.vectors]
    refine or_congr_right ⟨?_, ?_⟩
    · rintro ⟨c, hc, blob, hblob, rfl⟩
      have hcf : c.2 ∈ records.map (·.factId) := ha.facts ▸ List.mem_map_of_mem hc
      obtain ⟨record, hrec, hrf⟩ := List.mem_map.1 hcf
      have hb := hpay record hrec
      rw [hrf, hblob] at hb
      obtain rfl := Option.some.inj hb
      exact ⟨record, hrec, by rw [hrf]; exact hc, by rw [hrf]⟩
    · rintro ⟨record, hrec, hc, hv⟩
      exact ⟨_, hc, record.vectorBlob, hpay record hrec, hv.symm⟩
  have hinv : Vectors r (r.storeVectors s records) := by
    refine ⟨ha.inv.unique, ha.inv.below, ?_, ?_⟩
    · intro v hv
      obtain ⟨hv, -⟩ | ⟨record, hrec, hc, hv⟩ := (hmem v).1 hv
      · exact ha.inv.owned v (ha.vectors ▸ hv)
      · obtain ⟨row, hrow, hid, hf, hp⟩ := ha.ids _ hc
        exact ⟨row, hrow, hid, by rw [hv]; exact hf, hp⟩
    · simp only [JobRepository.storeVectors, List.map_append]
      rw [List.nodup_append]
      refine ⟨(List.filter_sublist.map _).nodup ha.inv.rowids, ?_, ?_⟩
      · refine List.Nodup.sublist ?_ (nodup_ids ha hd)
        rw [List.map_filterMap]
        have hsome : ∀ c ∈ (r.storeAllMetadata s records).2,
            (((Dict.ofList (records.map fun record => (record.factId, record.vectorBlob))).lookup
              c.2).map fun blob => ({ rowid := c.1, factId := c.2, vector := blob } : VectorRow)).map
              (·.rowid) = some c.1 := by
          intro c hc
          have hcf : c.2 ∈ records.map (·.factId) := ha.facts ▸ List.mem_map_of_mem hc
          obtain ⟨record, hrec, hrf⟩ := List.mem_map.1 hcf
          simp [← hrf, hpay record hrec]
        rw [List.filterMap_congr hsome, ← List.filterMap_eq_map]
        exact List.Sublist.refl _
      · intro i hi j hj
        obtain ⟨v, hv, rfl⟩ := List.mem_map.1 hi
        obtain ⟨w, hw, rfl⟩ := List.mem_map.1 hj
        obtain ⟨c, hc, hcw⟩ := List.mem_filterMap.1 hw
        obtain ⟨blob, -, rfl⟩ := Option.map_eq_some_iff.1 hcw
        have hn := (List.mem_filter.1 hv).2
        simp only [decide_eq_true_eq] at hn
        rintro he
        exact hn (he ▸ List.mem_map_of_mem hc)
  refine ⟨hinv, ?_, fun row hf => ha.others row (.inl hf), ?_⟩
  · intro record hrec
    obtain ⟨row, hrow, hc, hf, hp, hhash⟩ := ha.stored record hrec
    exact ⟨row, hrow, hf, hp, hhash, (hmem _).2 (.inr ⟨record, hrec, hc, rfl⟩)⟩
  · intro v hf
    rw [hmem v]
    constructor
    · rintro (⟨hv, -⟩ | ⟨record, hrec, -, hv⟩)
      · exact hv
      · rw [hv] at hf
        exact absurd (List.mem_map_of_mem hrec) hf
    · intro hv
      refine .inl ⟨hv, fun hm => hf ?_⟩
      -- the replaced row ids belong to the facts of the page
      obtain ⟨c, hc, hce⟩ := List.mem_map.1 hm
      obtain ⟨row, hrow, hid, hrf, -⟩ := ha.ids c hc
      obtain ⟨row', hrow', hid', hrf', -⟩ := ha.inv.owned v (ha.vectors ▸ hv)
      obtain rfl := eq_of_rowid _ hrow hrow' (hid.trans (hce.trans hid'.symm))
      rw [← hrf', hrf, ← ha.facts]
      exact List.mem_map_of_mem hc

/-! Runs. -/

def World.start (facts : Table FactRow.id) (latestProfile : Nat) : World where
  store := { facts := facts, jobs := .empty, nextJobId := 1, embeddings := .empty
             nextEmbeddingId := 1, vectors := [], latestProfile := latestProfile }

structure World.Inv (r : JobRepository) (w : World) : Prop where
  tokens : Tokens w.store w.claims (w.published.map Publication.token)
  vectors : Vectors r w.store
  sound : ∀ ws ∈ w.writes, ∀ x ∈ ws, x.Sound r

theorem World.inv_start (facts : Table FactRow.id) (latestProfile : Nat) :
    (World.start facts latestProfile).Inv r where
  tokens := by
    constructor <;> simp [World.start, Table.empty]
  vectors := by
    constructor <;> simp [World.start, Table.empty]
  sound := by simp [World.start]

theorem vectors_foldl {α : Type} {f : Store → α → Store}
    (hf : ∀ s a, Vectors r s → Vectors r (f s a)) :
    ∀ (as : List α) (s : Store), Vectors r s → Vectors r (as.foldl f s)
  | [], _, h => h
  | a :: as, s, h => vectors_foldl hf as (f s a) (hf s a h)

theorem Vectors.enqueueOne (h : Vectors r s) (latest : Bool) (row : PreparedRow) (clock : Int) :
    Vectors r (r.enqueueOne s latest row clock) := by
  unfold JobRepository.enqueueOne
  dsimp only
  split
  · split
    · exact h.congr rfl rfl rfl
    · split
      · exact h
      · exact h.congr rfl rfl rfl
  · exact h

theorem completeWrites_frame (s : Store) (ws : List (PreparedWrite × Int)) :
    (completeWrites s ws).1.facts = s.facts ∧ (completeWrites s ws).1.embeddings = s.embeddings ∧
      (completeWrites s ws).1.nextEmbeddingId = s.nextEmbeddingId ∧
      (completeWrites s ws).1.vectors = s.vectors := by
  induction ws generalizing s with
  | nil => exact ⟨rfl, rfl, rfl, rfl⟩
  | cons w ws ih =>
    have hone : (completeOne s w.1 w.2).1.facts = s.facts ∧
        (completeOne s w.1 w.2).1.embeddings = s.embeddings ∧
        (completeOne s w.1 w.2).1.nextEmbeddingId = s.nextEmbeddingId ∧
        (completeOne s w.1 w.2).1.vectors = s.vectors := by
      unfold completeOne
      dsimp only
      split <;> exact ⟨rfl, rfl, rfl, rfl⟩
    obtain ⟨h1, h2, h3, h4⟩ := ih (completeOne s w.1 w.2).1
    exact ⟨h1.trans hone.1, h2.trans hone.2.1, h3.trans hone.2.2.1, h4.trans hone.2.2.2⟩

theorem Vectors.changeFacts (h : Vectors r s) (facts : Table FactRow.id) :
    Vectors r (r.changeFacts s facts) where
  unique a ha b hb := h.unique a (List.mem_filter.1 ha).1 b (List.mem_filter.1 hb).1
  below row hrow := h.below row (List.mem_filter.1 hrow).1
  owned := by
    intro v hv
    obtain ⟨hv, hkeep⟩ := List.mem_filter.1 hv
    obtain ⟨row, hrow, hid, hf, hp⟩ := h.owned v hv
    refine ⟨row, List.mem_filter.2 ⟨hrow, ?_⟩, hid, hf, hp⟩
    -- the trigger removed the vectors of the rows that went
    by_contra hgone
    simp only [Bool.not_eq_true', List.any_eq_false, Bool.and_eq_true, decide_eq_true_eq, not_and,
      Bool.not_eq_true] at hkeep
    exact hgone (by simpa using hkeep row hrow ⟨hid, hp⟩)
  rowids := (List.filter_sublist.map _).nodup h.rowids

theorem storeAllMetadata_frame (records : List VectorRecord) (s : Store) :
    (r.storeAllMetadata s records).1.facts = s.facts ∧
      (r.storeAllMetadata s records).1.jobs = s.jobs ∧
      (r.storeAllMetadata s records).1.nextJobId = s.nextJobId := by
  induction records generalizing s with
  | nil => exact ⟨rfl, rfl, rfl⟩
  | cons record records ih =>
    obtain ⟨h1, h2, h3⟩ := ih (r.storeMetadata s record).1
    have hone : (r.storeMetadata s record).1.facts = s.facts ∧
        (r.storeMetadata s record).1.jobs = s.jobs ∧
        (r.storeMetadata s record).1.nextJobId = s.nextJobId := by
      unfold JobRepository.storeMetadata
      split <;> exact ⟨rfl, rfl, rfl⟩
    exact ⟨h1.trans hone.1, h2.trans hone.2.1, h3.trans hone.2.2⟩

theorem completePage_jobs (s : Store) (ws : List (PreparedWrite × Int)) :
    (r.completePage s ws).1.jobs = (completeWrites s ws).1.jobs ∧
      (r.completePage s ws).1.nextJobId = (completeWrites s ws).1.nextJobId :=
  (storeAllMetadata_frame _ _).2

/-- The writer of a completed page, seen from the world it started in. -/
structure PageDone (r : JobRepository) (s s' : Store) (ps : List Publication) : Prop where
  publications : PagePublications r s ps
  stored : PageStored r s s' (ps.map (·.record))
  facts : s'.facts = s.facts

theorem completePage_done {claims published : List (Nat × Int)} (ht : Tokens s claims published)
    (hv : Vectors r s) {ws : List (PreparedWrite × Int)} (hws : ∀ w ∈ ws, w.1.Sound r) :
    PageDone r s (r.completePage s ws).1 (r.completePage s ws).2 := by
  have hp := pagePublications ht hws
  obtain ⟨hf, he, hn, hvec⟩ := completeWrites_frame s ws
  have hd : (((completeWrites s ws).2.map (·.record)).map (·.factId)).Nodup := by
    simpa [Function.comp_def] using hp.distinct
  have hst := storeVectors_stored (hv.congr he hn hvec) hd
  refine ⟨hp, ⟨hst.inv, hst.stored, ?_, ?_⟩, ?_⟩
  · exact fun row hrow => (hst.others row hrow).trans (by rw [he])
  · exact fun v hf' => (hst.otherVectors v hf').trans (by rw [hvec])
  · exact (storeAllMetadata_frame _ _).1.trans hf

theorem Tokens.completePage {claims published : List (Nat × Int)} (h : Tokens s claims published)
    (ws : List (PreparedWrite × Int)) (hws : ∀ w ∈ ws, w.1.Sound r) :
    Tokens (r.completePage s ws).1 claims
      (((r.completePage s ws).2.map Publication.token).reverse ++ published) := by
  obtain ⟨hj, hn⟩ := completePage_jobs (r := r) s ws
  exact (h.completeWrites ws hws).moved hn fun job hjob => ⟨job, hj ▸ hjob, .inl rfl⟩

theorem World.Inv.step {w w' : World} {e : Event} (h : w.Inv r) (hs : r.step w e = some w') :
    w'.Inv r := by
  cases e with
  | preparePage ids afterId limit only now =>
    obtain rfl := Option.some.inj hs
    exact ⟨h.tokens, h.vectors, h.sound⟩
  | enqueuePrepared force latest rows =>
    obtain ⟨-, hs⟩ := Option.ite_none_right_eq_some.1 hs
    obtain rfl := Option.some.inj hs
    refine ⟨?_, ?_, h.sound⟩
    · exact Tokens.foldl (fun s row hs => hs.enqueueOne latest row.1 row.2) _ _ h.tokens
    · exact vectors_foldl (fun s row hs => hs.enqueueOne latest row.1 row.2) _ _ h.vectors
  | findInterrupted afterId =>
    obtain rfl := Option.some.inj hs
    exact ⟨h.tokens, h.vectors, h.sound⟩
  | recoverInterrupted jobs =>
    obtain ⟨-, hs⟩ := Option.ite_none_right_eq_some.1 hs
    obtain rfl := Option.some.inj hs
    refine ⟨?_, ?_, h.sound⟩
    · exact Tokens.foldl (fun s job hs => hs.recoverOne job.1 job.2) _ _ h.tokens
    · refine vectors_foldl (fun s job hs => ?_) _ _ h.vectors
      exact hs.congr rfl rfl rfl
  | findDue limit now =>
    obtain rfl := Option.some.inj hs
    exact ⟨h.tokens, h.vectors, h.sound⟩
  | claim ids now =>
    obtain ⟨-, hs⟩ := Option.ite_none_right_eq_some.1 hs
    obtain rfl := Option.some.inj hs
    exact ⟨h.tokens.claim ids now, h.vectors.congr rfl rfl rfl, h.sound⟩
  | prepareWrites writes now =>
    obtain rfl := Option.some.inj hs
    refine ⟨h.tokens, h.vectors, ?_⟩
    intro ws hws x hx
    obtain rfl | hws := List.mem_cons.1 hws
    · exact sound_prepareWrites hx
    · exact h.sound ws hws x hx
  | completePage writes =>
    obtain ⟨hmem, hs⟩ := Option.ite_none_right_eq_some.1 hs
    obtain rfl := Option.some.inj hs
    have hsound : ∀ x ∈ writes, x.1.Sound r :=
      fun x hx => h.sound _ hmem x.1 (List.mem_map_of_mem hx)
    refine ⟨?_, (completePage_done h.tokens h.vectors hsound).stored.inv, h.sound⟩
    simpa [List.map_reverse] using h.tokens.completePage writes hsound
  | skipMany jobs =>
    obtain rfl := Option.some.inj hs
    refine ⟨?_, ?_, h.sound⟩
    · exact Tokens.foldl (fun s job hs => hs.skipOne job.1 job.2) _ _ h.tokens
    · refine vectors_foldl (fun s job hs => ?_) _ _ h.vectors
      exact hs.congr rfl rfl rfl
  | failMany failure jobs =>
    obtain rfl := Option.some.inj hs
    refine ⟨?_, ?_, h.sound⟩
    · exact Tokens.foldl (fun s job hs => hs.failOne failure job.1 job.2) _ _ h.tokens
    · refine vectors_foldl (fun s job hs => ?_) _ _ h.vectors
      exact hs.congr rfl rfl rfl
  | findFailed afterId =>
    obtain rfl := Option.some.inj hs
    exact ⟨h.tokens, h.vectors, h.sound⟩
  | retryFailed jobs =>
    obtain ⟨-, hs⟩ := Option.ite_none_right_eq_some.1 hs
    obtain rfl := Option.some.inj hs
    refine ⟨?_, ?_, h.sound⟩
    · exact Tokens.foldl (fun s job hs => hs.retryOne job.1 job.2) _ _ h.tokens
    · refine vectors_foldl (fun s job hs => ?_) _ _ h.vectors
      exact hs.congr rfl rfl rfl
  | changeFacts facts =>
    obtain rfl := Option.some.inj hs
    exact ⟨h.tokens.changeFacts facts, h.vectors.changeFacts facts, h.sound⟩
  | newProfile id =>
    obtain rfl := Option.some.inj hs
    exact ⟨h.tokens.moved rfl fun job hj => ⟨job, hj, .inl rfl⟩, h.vectors.congr rfl rfl rfl, h.sound⟩

/-- The tokens with which a call completes, skips or fails jobs. -/
def Event.tokens : Event → List (Nat × Int)
  | .completePage writes => writes.map fun w => (w.1.item.jobId, w.1.item.claimedAt)
  | .skipMany jobs => jobs.map fun job => (job.1.id, job.1.updatedAt)
  | .failMany _ jobs => jobs.map fun job => (job.1.id, job.1.updatedAt)
  | _ => []

/-- The calls that end claims. -/
def Event.endsClaims : Event → Bool
  | .completePage _ => true
  | .skipMany _ => true
  | .failMany _ _ => true
  | _ => false

/-- A call changes a job, or a vector, only with a token that is its claim in force. -/
structure StaleTokensIdle (s s' : Store) (tokens : List (Nat × Int)) : Prop where
  jobs : ∀ id, (∀ token ∈ tokens, token.1 = id → ¬ s.Current token) →
    s'.jobs.get? id = s.jobs.get? id
  embeddings : ∀ row : EmbeddingRow, (∀ token ∈ tokens, ∀ job, s.jobs.get? token.1 = some job →
      s.Current token → job.factId ≠ row.factId) →
    (row ∈ s'.embeddings.rows ↔ row ∈ s.embeddings.rows)
  vectors : ∀ v : VectorRow, (∀ token ∈ tokens, ∀ job, s.jobs.get? token.1 = some job →
      s.Current token → job.factId ≠ v.factId) → (v ∈ s'.vectors ↔ v ∈ s.vectors)

theorem foldl_frame {α β : Type} {f : Store → α → Store} {g : Store → β}
    (hf : ∀ s a, g (f s a) = g s) : ∀ (as : List α) (s : Store), g (as.foldl f s) = g s
  | [], _ => rfl
  | a :: as, s => (foldl_frame hf as (f s a)).trans (hf s a)

theorem write_of_completeWrites {ws : List (PreparedWrite × Int)} {p : Publication}
    (h : p ∈ (completeWrites s ws).2) : ∃ x ∈ ws, x.1 = p.write := by
  induction ws generalizing s with
  | nil => simp [completeWrites] at h
  | cons x ws ih =>
    obtain hp | hp := List.mem_append.1 h
    · cases hrec : (completeOne s x.1 x.2).2 with
      | none => simp [hrec] at hp
      | some record =>
        simp only [hrec, Option.map_some, Option.toList_some, List.mem_singleton] at hp
        exact ⟨x, by simp, by rw [hp]⟩
    · obtain ⟨y, hy, hyp⟩ := ih hp
      exact ⟨y, List.mem_cons_of_mem _ hy, hyp⟩

/-- Guarded updates of jobs, one after another. -/
theorem staleTokensIdle_foldl {f : Store → EmbeddingJob × Int → Store}
    (hjobs : ∀ s job k, (job.1.id = k → ¬ s.Current (k, job.1.updatedAt)) →
      (f s job).jobs.get? k = s.jobs.get? k)
    (hframe : ∀ s job, (f s job).embeddings = s.embeddings ∧ (f s job).vectors = s.vectors)
    (jobs : List (EmbeddingJob × Int)) (s : Store) :
    StaleTokensIdle s (jobs.foldl f s) (jobs.map fun job => (job.1.id, job.1.updatedAt)) := by
  refine ⟨fun id hno => ?_, fun row _ => ?_, fun v _ => ?_⟩
  · refine get?_foldl (fun job => (job.1.id, job.1.updatedAt))
      (fun s job hjob => hjobs s job id hjob) fun job hjob hid hcur => ?_
    obtain rfl := hid
    exact hno _ (List.mem_map_of_mem hjob) rfl hcur
  · rw [foldl_frame (g := (·.embeddings)) fun s job => (hframe s job).1]
  · rw [foldl_frame (g := (·.vectors)) fun s job => (hframe s job).2]

theorem staleTokensIdle {w w' : World} {e : Event} (h : w.Inv r) (hs : r.step w e = some w')
    (he : e.endsClaims = true) : StaleTokensIdle w.store w'.store e.tokens := by
  cases e with
  | completePage writes =>
    obtain ⟨hmem, hs⟩ := Option.ite_none_right_eq_some.1 hs
    obtain rfl := Option.some.inj hs
    have hsound : ∀ x ∈ writes, x.1.Sound r :=
      fun x hx => h.sound _ hmem x.1 (List.mem_map_of_mem hx)
    have hdone := completePage_done h.tokens h.vectors hsound
    have hps : ∀ p ∈ (r.completePage w.store writes).2,
        p.token ∈ (Event.completePage writes).tokens := by
      intro p hp
      obtain ⟨x, hx, hxp⟩ := write_of_completeWrites hp
      exact List.mem_map.2 ⟨x, hx, by rw [hxp]; rfl⟩
    -- a fact without a claim in force is not among the records
    have hother : ∀ factId, (∀ token ∈ (Event.completePage writes).tokens, ∀ job,
        w.store.jobs.get? token.1 = some job → w.store.Current token → job.factId ≠ factId) →
        factId ∉ ((r.completePage w.store writes).2.map (·.record)).map (·.factId) := by
      intro factId hno hm
      simp only [List.map_map, List.mem_map, Function.comp_apply] at hm
      obtain ⟨p, hp, rfl⟩ := hm
      obtain ⟨job, hj, hid, hst, hup, hjf, -⟩ := hdone.publications.current p hp
      have hget : w.store.jobs.get? p.token.1 = some job := Table.get?_eq_some.2 ⟨hj, hid⟩
      exact hno _ (hps p hp) job hget ⟨job, hget, hst, hup⟩ hjf
    refine ⟨?_, fun row hno => hdone.stored.others row (hother _ hno),
      fun v hno => hdone.stored.otherVectors v (hother _ hno)⟩
    intro id hno
    show (r.completePage w.store writes).1.jobs.get? id = _
    rw [(completePage_jobs w.store writes).1]
    refine get?_completeWrites hsound fun x hx hid hcur => ?_
    exact hno _ (List.mem_map_of_mem hx) hid (by rw [hid]; exact hcur)
  | skipMany jobs =>
    obtain rfl := Option.some.inj hs
    exact staleTokensIdle_foldl (fun s job k hk => get?_updateClaim _ _ _ hk)
      (fun _ _ => ⟨rfl, rfl⟩) jobs w.store
  | failMany failure jobs =>
    obtain rfl := Option.some.inj hs
    exact staleTokensIdle_foldl (fun s job k hk => get?_updateClaim _ _ _ hk)
      (fun _ _ => ⟨rfl, rfl⟩) jobs w.store
  | preparePage | enqueuePrepared | findInterrupted | recoverInterrupted | findDue | claim
  | prepareWrites | findFailed | retryFailed | changeFacts | newProfile =>
    simp [Event.endsClaims] at he

/-- What a step publishes: by the claim in force, for an eligible fact, with the
hash of its text, and stored with that hash. -/
def PublishesCurrent (r : JobRepository) (w w' : World) : Prop :=
  ∃ new, w'.published = new ++ w.published ∧ ∀ p ∈ new, w.store.Current p.token ∧
    w'.store.facts = w.store.facts ∧
    (∃ fact, w.store.facts.get? p.record.factId = some fact ∧ eligible p.clock fact = true ∧
      p.record.contentHash = r.contentHash fact) ∧
    ∃ row ∈ w'.store.embeddings.rows, row.factId = p.record.factId ∧ row.profileId = r.profile ∧
      row.contentHash = p.record.contentHash ∧
      { rowid := row.id, factId := p.record.factId, vector := p.record.vectorBlob } ∈ w'.store.vectors

theorem publishesCurrent {w w' : World} {e : Event} (h : w.Inv r) (hs : r.step w e = some w') :
    PublishesCurrent r w w' := by
  have hidle : w'.published = w.published → PublishesCurrent r w w' :=
    fun he => ⟨[], by simp [he], by simp⟩
  cases e with
  | completePage writes =>
    obtain ⟨hmem, hs⟩ := Option.ite_none_right_eq_some.1 hs
    obtain rfl := Option.some.inj hs
    have hdone := completePage_done h.tokens h.vectors fun x hx =>
      h.sound _ hmem x.1 (List.mem_map_of_mem hx)
    refine ⟨_, rfl, fun p hp => ?_⟩
    have hp := List.mem_reverse.1 hp
    obtain ⟨job, hj, hid, hst, hup, -, -⟩ := hdone.publications.current p hp
    exact ⟨⟨job, Table.get?_eq_some.2 ⟨hj, hid⟩, hst, hup⟩, hdone.facts,
      hdone.publications.fact p hp, hdone.stored.stored _ (List.mem_map_of_mem hp)⟩
  | preparePage | findInterrupted | findDue | prepareWrites | skipMany | failMany | findFailed
  | changeFacts | newProfile =>
    exact hidle (by rw [← Option.some.inj hs])
  | enqueuePrepared | recoverInterrupted | claim | retryFailed =>
    obtain ⟨-, hs⟩ := Option.ite_none_right_eq_some.1 hs
    obtain rfl := Option.some.inj hs
    exact hidle rfl

/-- At most one job and one vector for a fact and a profile. -/
structure OneRowPerFact (s : Store) : Prop where
  jobs : ∀ a ∈ s.jobs.rows, ∀ b ∈ s.jobs.rows, a.factId = b.factId → a.profileId = b.profileId →
    a = b
  embeddings : ∀ a ∈ s.embeddings.rows, ∀ b ∈ s.embeddings.rows, a.factId = b.factId →
    a.profileId = b.profileId → a = b
  vectors : ∀ a ∈ s.vectors, ∀ b ∈ s.vectors, a.factId = b.factId → a = b

theorem World.Inv.oneRowPerFact {w : World} (h : w.Inv r) : OneRowPerFact w.store where
  jobs a ha b hb hf hp := Tokens.eq_of_id _ ha hb (h.tokens.unique a ha b hb hf hp)
  embeddings a ha b hb hf hp := eq_of_rowid _ ha hb (h.vectors.unique a ha b hb hf hp)
  vectors a ha b hb hf := by
    obtain ⟨ra, hra, hia, hfa, hpa⟩ := h.vectors.owned a ha
    obtain ⟨rb, hrb, hib, hfb, hpb⟩ := h.vectors.owned b hb
    have hid := h.vectors.unique ra hra rb hrb (hfa.trans (hf.trans hfb.symm)) (hpa.trans hpb.symm)
    exact List.inj_on_of_nodup_map h.vectors.rowids ha hb (hia.symm.trans (hid.trans hib))

def sampleRepository : JobRepository where
  profile := 1
  contentHashFields _ _ _ content := content

def sampleFact : FactRow where
  id := 1
  status := .active
  reviewState := .verified
  validUntil := none
  updatedAt := 3
  kind := .fact
  category := "food"
  memoryKey := "tea"
  content := "likes tea"

def sampleFacts : Table FactRow.id :=
  ⟨[sampleFact], by simp⟩

def sampleJob : EmbeddingJob where
  id := 1
  factId := 1
  profileId := 1
  contentHash := "likes tea"
  status := .processing
  attempts := 1
  nextAttemptAt := 8
  createdAt := 8
  updatedAt := 10
  errorCategory := none

def sampleWrite : EmbeddingWrite where
  jobId := 1
  factId := 1
  contentHash := "likes tea"
  vectorBlob := [7]
  claimedAt := 10

def sampleRun : List Event :=
  [.preparePage none 0 128 false 5,
    .enqueuePrepared false false [({ fact := sampleFact, vectorHash := none, job := none }, 8)],
    .findDue 16 9, .claim [1] 10, .prepareWrites [sampleWrite] 11,
    .completePage [({ item := sampleWrite, job := sampleJob, row := some sampleFact
                      digest := some "likes tea" }, 4)],
    .skipMany [(sampleJob, 12)]]

theorem sampleRun_played :
    (Run.play sampleRepository.step (World.start sampleFacts 1) sampleRun).map
      (fun w => (w.claims, w.published.map Publication.token, w.store.vectors.length)) =
      some ([(1, 10)], [(1, 10)], 1) := by
  decide +kernel

end Yuki.Embedding

import Mathlib.Data.List.Pairwise
import Yuki.Memory.Embeddings

/-! `updated_at` of a job as the token of its claim: it grows with every claim,
and whatever ends a claim moves the job beyond it. -/

namespace Yuki.Embedding

open JobRepository

/-- The rows, the tokens handed out and the tokens whose vector was published. -/
structure Tokens (s : Store) (claims published : List (Nat × Int)) : Prop where
  unique : ∀ a ∈ s.jobs.rows, ∀ b ∈ s.jobs.rows, a.factId = b.factId → a.profileId = b.profileId →
    a.id = b.id
  below : ∀ job ∈ s.jobs.rows, job.id < s.nextJobId
  claimsBelow : ∀ c ∈ claims, c.1 < s.nextJobId
  due : ∀ job ∈ s.jobs.rows, job.status = .pending → job.updatedAt ≤ job.nextAttemptAt
  reached : ∀ c ∈ claims, ∀ job ∈ s.jobs.rows, job.id = c.1 → c.2 ≤ job.updatedAt
  left : ∀ c ∈ claims, ∀ job ∈ s.jobs.rows, job.id = c.1 → job.status ≠ .processing →
    c.2 < job.updatedAt
  current : ∀ job ∈ s.jobs.rows, job.status = .processing → (job.id, job.updatedAt) ∈ claims
  increasing : claims.Pairwise fun c d => c.1 = d.1 → d.2 < c.2
  publishedClaims : ∀ c ∈ published, c ∈ claims
  publishedPast : ∀ c ∈ published, ∀ job ∈ s.jobs.rows, job.id = c.1 → c.2 < job.updatedAt
  once : published.Nodup

/-- What a writer other than `claim` does to a row. -/
structure Moved (job job' : EmbeddingJob) : Prop where
  id : job'.id = job.id
  factId : job'.factId = job.factId
  profileId : job'.profileId = job.profileId
  later : job.updatedAt < job'.updatedAt
  idle : job'.status ≠ .processing
  due : job'.status = .pending → job'.updatedAt ≤ job'.nextAttemptAt

variable {s : Store} {claims published : List (Nat × Int)}

theorem Tokens.eq_of_id (s : Store) {a b : EmbeddingJob} (ha : a ∈ s.jobs.rows)
    (hb : b ∈ s.jobs.rows) (h : a.id = b.id) : a = b :=
  List.inj_on_of_nodup_map s.jobs.nodup ha hb h

/-- Rows that move, or stay, keep every token. -/
theorem Tokens.moved (h : Tokens s claims published) {s' : Store} (hnext : s'.nextJobId = s.nextJobId)
    (hrows : ∀ job' ∈ s'.jobs.rows, ∃ job ∈ s.jobs.rows, job' = job ∨ Moved job job') :
    Tokens s' claims published where
  unique := by
    intro a ha b hb hf hp
    obtain ⟨a0, ha0, hma⟩ := hrows a ha
    obtain ⟨b0, hb0, hmb⟩ := hrows b hb
    have hkeys : ∀ {x x0 : EmbeddingJob}, x = x0 ∨ Moved x0 x →
        x.id = x0.id ∧ x.factId = x0.factId ∧ x.profileId = x0.profileId := by
      rintro x x0 (rfl | hm)
      · exact ⟨rfl, rfl, rfl⟩
      · exact ⟨hm.id, hm.factId, hm.profileId⟩
    obtain ⟨hia, hfa, hpa⟩ := hkeys hma
    obtain ⟨hib, hfb, hpb⟩ := hkeys hmb
    rw [hia, hib]
    exact h.unique a0 ha0 b0 hb0 (by rw [← hfa, ← hfb, hf]) (by rw [← hpa, ← hpb, hp])
  below := by
    intro job' hj
    obtain ⟨job, hjob, rfl | hm⟩ := hrows job' hj
    · exact hnext ▸ h.below _ hjob
    · rw [hm.id, hnext]
      exact h.below job hjob
  claimsBelow := fun c hc => hnext ▸ h.claimsBelow c hc
  due := by
    intro job' hj hp
    obtain ⟨job, hjob, rfl | hm⟩ := hrows job' hj
    · exact h.due _ hjob hp
    · exact hm.due hp
  reached := by
    intro c hc job' hj hid
    obtain ⟨job, hjob, rfl | hm⟩ := hrows job' hj
    · exact h.reached c hc _ hjob hid
    · exact (h.reached c hc job hjob (hm.id ▸ hid)).trans hm.later.le
  left := by
    intro c hc job' hj hid hne
    obtain ⟨job, hjob, rfl | hm⟩ := hrows job' hj
    · exact h.left c hc _ hjob hid hne
    · exact (h.reached c hc job hjob (hm.id ▸ hid)).trans_lt hm.later
  current := by
    intro job' hj hp
    obtain ⟨job, hjob, rfl | hm⟩ := hrows job' hj
    · exact h.current _ hjob hp
    · exact absurd hp hm.idle
  increasing := h.increasing
  publishedClaims := h.publishedClaims
  publishedPast := by
    intro c hc job' hj hid
    obtain ⟨job, hjob, rfl | hm⟩ := hrows job' hj
    · exact h.publishedPast c hc _ hjob hid
    · exact (h.publishedPast c hc job hjob (hm.id ▸ hid)).trans hm.later
  once := h.once

theorem Tokens.update (h : Tokens s claims published) {p : EmbeddingJob → Bool}
    {f : EmbeddingJob → EmbeddingJob} {hf : ∀ job, (f job).id = job.id}
    (hm : ∀ job ∈ s.jobs.rows, p job = true → Moved job (f job)) :
    Tokens { s with jobs := s.jobs.update p f hf } claims published := by
  refine h.moved rfl fun job' hj => ?_
  obtain ⟨job, hjob, rfl⟩ := List.mem_map.1 hj
  by_cases hp : p job = true
  · exact ⟨job, hjob, .inr (by simpa [hp] using hm job hjob hp)⟩
  · exact ⟨job, hjob, .inl (by simp [hp])⟩

theorem claimGuard_iff {job row : EmbeddingJob} : claimGuard job row = true ↔
    row.id = job.id ∧ row.factId = job.factId ∧ row.profileId = job.profileId ∧
      row.contentHash = job.contentHash ∧ row.status = .processing ∧ row.updatedAt = job.updatedAt ∧
      row.attempts = job.attempts := by
  simp [claimGuard]

theorem lt_of_claimGuard {job row : EmbeddingJob} (h : claimGuard job row = true) (clock : Int) :
    row.updatedAt < nextUpdatedAt job.updatedAt clock := by
  rw [(claimGuard_iff.1 h).2.2.2.2.2.1]
  exact lt_nextUpdatedAt _ _

theorem Tokens.skipOne (h : Tokens s claims published) (job : EmbeddingJob) (clock : Int) :
    Tokens (skipOne s job clock) claims published :=
  h.update fun _ _ hg => ⟨rfl, rfl, rfl, lt_of_claimGuard hg clock, by simp, by simp⟩

theorem Tokens.failOne (h : Tokens s claims published) (f : Failure) (job : EmbeddingJob)
    (clock : Int) : Tokens (failOne s f job clock) claims published := by
  refine h.update fun row _ hg => ⟨rfl, rfl, rfl, lt_of_claimGuard hg clock, ?_, ?_⟩
  · cases f.retryable <;> simp
  · cases f.retryable <;> simp

theorem Tokens.recoverOne (h : Tokens s claims published) (job : EmbeddingJob) (clock : Int) :
    Tokens (recoverOne s job clock) claims published :=
  h.update fun _ _ hg => ⟨rfl, rfl, rfl, lt_of_claimGuard hg clock, by simp, by simp⟩

variable {r : JobRepository}

theorem Tokens.retryOne (h : Tokens s claims published) (seen : JobSeen) (clock : Int) :
    Tokens (r.retryOne s seen clock) claims published := by
  refine h.update fun row _ hg => ⟨rfl, rfl, rfl, ?_, by simp, by simp⟩
  have hup : row.updatedAt = seen.updatedAt := by
    simp only [decide_eq_true_eq] at hg
    exact hg.2.2.2.1
  show row.updatedAt < nextUpdatedAt seen.updatedAt clock
  rw [hup]
  exact lt_nextUpdatedAt _ _

theorem lt_nextStamp (p clock : Int) : p < nextStamp (some p) clock :=
  lt_nextUpdatedAt p clock

theorem jobOf_eq_none {factId : Nat} (h : r.jobOf s factId = none) :
    ∀ job ∈ s.jobs.rows, job.factId = factId → job.profileId ≠ r.profile := by
  intro job hj hf hp
  have hn := List.find?_eq_none.1 h job hj
  simp [hf, hp] at hn

/-- A new job has an id of its own and waits from its own stamp on. -/
theorem Tokens.insertJob (h : Tokens s claims published) {job : EmbeddingJob}
    (hid : job.id = s.nextJobId) (hst : job.status = .pending)
    (hdue : job.updatedAt ≤ job.nextAttemptAt)
    (hfresh : ∀ a ∈ s.jobs.rows, a.factId = job.factId → a.profileId ≠ job.profileId) :
    Tokens { s with jobs := s.jobs.insert job, nextJobId := s.nextJobId + 1 } claims published := by
  have hrows : ∀ a ∈ (s.jobs.insert job).rows, a ∈ s.jobs.rows ∨ a = job := by
    intro a ha
    obtain ha | ⟨rfl, -⟩ := Table.mem_insert.1 ha
    · exact .inl ha
    · exact .inr rfl
  -- no token was ever handed out for the new id
  have hnew : ∀ c ∈ claims, job.id ≠ c.1 := by
    intro c hc he
    have hlt := h.claimsBelow c hc
    omega
  exact {
    unique := by
      intro a ha b hb hf hp
      obtain ha' | ha' := hrows a ha <;> obtain hb' | hb' := hrows b hb
      · exact h.unique a ha' b hb' hf hp
      · subst hb'
        exact absurd hp (hfresh a ha' hf)
      · subst ha'
        exact absurd hp.symm (hfresh b hb' hf.symm)
      · rw [ha', hb']
    below := by
      intro a ha
      obtain ha | rfl := hrows a ha
      · exact Nat.lt_succ_of_lt (h.below a ha)
      · exact hid ▸ Nat.lt_succ_self s.nextJobId
    claimsBelow := fun c hc => Nat.lt_succ_of_lt (h.claimsBelow c hc)
    due := by
      intro a ha hp
      obtain ha | rfl := hrows a ha
      · exact h.due a ha hp
      · exact hdue
    reached := by
      intro c hc a ha he
      obtain ha | rfl := hrows a ha
      · exact h.reached c hc a ha he
      · exact absurd he (hnew c hc)
    left := by
      intro c hc a ha he hne
      obtain ha | rfl := hrows a ha
      · exact h.left c hc a ha he hne
      · exact absurd he (hnew c hc)
    current := by
      intro a ha hp
      obtain ha | rfl := hrows a ha
      · exact h.current a ha hp
      · simp [hst] at hp
    increasing := h.increasing
    publishedClaims := h.publishedClaims
    publishedPast := by
      intro c hc a ha he
      obtain ha | rfl := hrows a ha
      · exact h.publishedPast c hc a ha he
      · exact absurd he (hnew c (h.publishedClaims c hc))
    once := h.once }

theorem Tokens.enqueueOne (h : Tokens s claims published) (latest : Bool) (row : PreparedRow)
    (clock : Int) : Tokens (r.enqueueOne s latest row clock) claims published := by
  unfold JobRepository.enqueueOne
  dsimp only
  split
  · split
    · next hnone =>
      exact h.insertJob rfl rfl le_rfl (jobOf_eq_none hnone)
    · split
      · exact h
      · next seen hseen =>
        refine h.update fun job _ hg => ⟨rfl, rfl, rfl, ?_, by simp, by simp⟩
        have hup : job.updatedAt = seen.updatedAt := by
          simp only [decide_eq_true_eq] at hg
          exact hg.2.2.2.1
        simp only [hseen, Option.map_some, hup]
        exact lt_nextStamp _ _
  · exact h

theorem Tokens.foldl {α : Type} {f : Store → α → Store}
    (hf : ∀ s a, Tokens s claims published → Tokens (f s a) claims published) :
    ∀ (as : List α) (s : Store), Tokens s claims published → Tokens (as.foldl f s) claims published
  | [], _, h => h
  | a :: as, s, h => Tokens.foldl hf as (f s a) (hf s a h)

/-- A claim hands out a token above every earlier one of its job. -/
theorem Tokens.claim (h : Tokens s claims published) (ids : List Nat) (now : Int) :
    Tokens (r.claim s ids now).1
      ((r.claim s ids now).2.map (fun job => (job.id, job.updatedAt)) ++ claims) published := by
  have hwanted : ∀ job, r.claimWanted ids now job = true →
      job.status = .pending ∧ job.nextAttemptAt ≤ now := by
    intro job hw
    simp only [JobRepository.claimWanted, JobRepository.due, Bool.and_eq_true,
      decide_eq_true_eq] at hw
    exact ⟨hw.2.2.1, hw.2.2.2⟩
  have htokens : (r.claim s ids now).2.map (fun job => (job.id, job.updatedAt)) =
      (s.jobs.rows.filter (r.claimWanted ids now)).map fun job => (job.id, now) := by
    simp [JobRepository.claim, Function.comp_def]
  have hnew : ∀ c ∈ (s.jobs.rows.filter (r.claimWanted ids now)).map fun job => (job.id, now),
      ∃ job ∈ s.jobs.rows, r.claimWanted ids now job = true ∧ c = (job.id, now) := by
    intro c hc
    obtain ⟨job, hjob, rfl⟩ := List.mem_map.1 hc
    obtain ⟨hj, hw⟩ := List.mem_filter.1 hjob
    exact ⟨job, hj, hw, rfl⟩
  have hbefore : ∀ job ∈ s.jobs.rows, r.claimWanted ids now job = true → ∀ c ∈ claims,
      job.id = c.1 → c.2 < now := by
    intro job hj hw c hc he
    obtain ⟨hp, hd⟩ := hwanted job hw
    have hlt := h.left c hc job hj he (by simp [hp])
    have hle := h.due job hj hp
    omega
  have hrows : ∀ job' ∈ (r.claim s ids now).1.jobs.rows, ∃ job ∈ s.jobs.rows,
      (r.claimWanted ids now job = false ∧ job' = job) ∨
      (r.claimWanted ids now job = true ∧
        job' = { job with status := .processing, attempts := job.attempts + 1, updatedAt := now }) := by
    intro job' hj
    obtain ⟨job, hjob, rfl⟩ := List.mem_map.1 hj
    cases hw : r.claimWanted ids now job with
    | false => exact ⟨job, hjob, .inl ⟨hw, by simp⟩⟩
    | true => exact ⟨job, hjob, .inr ⟨hw, by simp⟩⟩
  have hkeys : ∀ job' ∈ (r.claim s ids now).1.jobs.rows, ∃ job ∈ s.jobs.rows,
      job'.id = job.id ∧ job'.factId = job.factId ∧ job'.profileId = job.profileId := by
    intro job' hj
    obtain ⟨job, hjob, ⟨-, rfl⟩ | ⟨-, rfl⟩⟩ := hrows job' hj
    · exact ⟨job', hjob, rfl, rfl, rfl⟩
    · exact ⟨job, hjob, rfl, rfl, rfl⟩
  rw [htokens]
  exact {
    unique := by
      intro a ha b hb hf hp
      obtain ⟨a0, ha0, hia, hfa, hpa⟩ := hkeys a ha
      obtain ⟨b0, hb0, hib, hfb, hpb⟩ := hkeys b hb
      rw [hia, hib]
      exact h.unique a0 ha0 b0 hb0 (by rw [← hfa, ← hfb, hf]) (by rw [← hpa, ← hpb, hp])
    below := by
      intro a ha
      obtain ⟨a0, ha0, hia, -, -⟩ := hkeys a ha
      exact hia ▸ h.below a0 ha0
    claimsBelow := by
      intro c hc
      obtain hc | hc := List.mem_append.1 hc
      · obtain ⟨job, hj, -, rfl⟩ := hnew c hc
        exact h.below job hj
      · exact h.claimsBelow c hc
    due := by
      intro a ha hp
      obtain ⟨a0, ha0, ⟨-, rfl⟩ | ⟨-, rfl⟩⟩ := hrows a ha
      · exact h.due _ ha0 hp
      · simp at hp
    reached := by
      intro c hc a ha he
      obtain ⟨a0, ha0, hcase⟩ := hrows a ha
      obtain hc | hc := List.mem_append.1 hc
      · obtain ⟨job, hj, hw, rfl⟩ := hnew c hc
        obtain ⟨hn, rfl⟩ | ⟨-, rfl⟩ := hcase
        · obtain rfl := Tokens.eq_of_id s ha0 hj he
          simp [hw] at hn
        · exact le_rfl
      · obtain ⟨-, rfl⟩ | ⟨hw, rfl⟩ := hcase
        · exact h.reached c hc _ ha0 he
        · exact (hbefore a0 ha0 hw c hc he).le
    left := by
      intro c hc a ha he hne
      obtain ⟨a0, ha0, ⟨hn, rfl⟩ | ⟨-, rfl⟩⟩ := hrows a ha
      · obtain hc | hc := List.mem_append.1 hc
        · obtain ⟨job, hj, hw, rfl⟩ := hnew c hc
          obtain rfl := Tokens.eq_of_id s ha0 hj he
          simp [hw] at hn
        · exact h.left c hc _ ha0 he hne
      · exact absurd rfl hne
    current := by
      intro a ha hp
      obtain ⟨a0, ha0, ⟨-, rfl⟩ | ⟨hw, rfl⟩⟩ := hrows a ha
      · exact List.mem_append_right _ (h.current _ ha0 hp)
      · exact List.mem_append_left _
          (List.mem_map.2 ⟨a0, List.mem_filter.2 ⟨ha0, hw⟩, rfl⟩)
    increasing := by
      rw [List.pairwise_append]
      refine ⟨?_, h.increasing, ?_⟩
      · -- one writer takes each row once
        have hnd : ((s.jobs.rows.filter (r.claimWanted ids now)).map EmbeddingJob.id).Nodup :=
          (List.filter_sublist.map _).nodup s.jobs.nodup
        rw [List.pairwise_map]
        exact (List.pairwise_map.1 hnd).imp fun hne he => absurd he hne
      · intro c hc d hd he
        obtain ⟨job, hj, hw, rfl⟩ := hnew c hc
        exact hbefore job hj hw d hd he
    publishedClaims := fun c hc => List.mem_append_right _ (h.publishedClaims c hc)
    publishedPast := by
      intro c hc a ha he
      obtain ⟨a0, ha0, ⟨-, rfl⟩ | ⟨hw, rfl⟩⟩ := hrows a ha
      · exact h.publishedPast c hc _ ha0 he
      · exact hbefore a0 ha0 hw c (h.publishedClaims c hc) he
    once := h.once }

/-- Deleted facts take their jobs along. -/
theorem Tokens.changeFacts (h : Tokens s claims published) (facts : Table FactRow.id) :
    Tokens (r.changeFacts s facts) claims published :=
  h.moved rfl fun job hj => ⟨job, (List.mem_filter.1 hj).1, .inl rfl⟩

/-! Completion. -/

/-- What a reader prepared belongs together. -/
structure PreparedWrite.Sound (r : JobRepository) (w : PreparedWrite) : Prop where
  job : w.job.id = w.item.jobId
  fact : w.job.factId = w.item.factId
  profile : w.job.profileId = r.profile
  claim : w.job.updatedAt = w.item.claimedAt
  digest : ∀ digest, w.digest = some digest →
    ∃ row, w.row = some row ∧ row.id = w.item.factId ∧ digest = r.contentHash row

theorem sound_prepareWrites {writes : List EmbeddingWrite} {now : Int} {w : PreparedWrite}
    (h : w ∈ r.prepareWrites s writes now) : w.Sound r := by
  obtain ⟨item, -, hw⟩ := List.mem_filterMap.1 h
  split at hw
  · simp at hw
  · next job hjob =>
    obtain ⟨hget, hprofile⟩ := Option.filter_eq_some_iff.1 hjob
    split at hw
    · simp at hw
    · next hne =>
      obtain rfl := Option.some.inj hw
      simp only [not_or, not_not] at hne
      refine ⟨Table.get?_key hget, hne.1, by simpa using hprofile, hne.2.2.2, ?_⟩
      intro digest hd
      obtain ⟨row, hrow, rfl⟩ := Option.map_eq_some_iff.1 hd
      obtain ⟨hfact, -⟩ := Option.filter_eq_some_iff.1 hrow
      exact ⟨row, hfact, Table.get?_key hfact, rfl⟩

/-- The token a publication used. -/
def Publication.token (p : Publication) : Nat × Int :=
  (p.write.item.jobId, p.write.item.claimedAt)

theorem completeOne_eq_some {w : PreparedWrite} {clock : Int} {record : VectorRecord} :
    (completeOne s w clock).2 = some record ↔
      s.jobs.rows.any (accepts s w (nextUpdatedAt w.job.updatedAt clock)) = true ∧
      w.digest = some w.item.contentHash ∧
      record = { factId := w.item.factId, contentHash := w.item.contentHash
                 vectorBlob := w.item.vectorBlob, stamp := nextUpdatedAt w.job.updatedAt clock } := by
  unfold completeOne
  dsimp only
  by_cases hany : s.jobs.rows.any (accepts s w (nextUpdatedAt w.job.updatedAt clock)) = true
  · by_cases hd : w.digest = some w.item.contentHash
    · simp [hany, hd, eq_comm]
    · simp [hany, hd]
  · simp [hany]

theorem accepts_guard {w : PreparedWrite} {stamp : Int} {job : EmbeddingJob}
    (h : accepts s w stamp job = true) : claimGuard w.job job = true := by
  simp only [accepts, Bool.and_eq_true] at h
  exact h.1.1

/-- A vector is let through for a claim in force, whose fact is as the reader saw it. -/
theorem completeOne_some {w : PreparedWrite} {clock : Int} {record : VectorRecord}
    (hw : w.Sound r) (h : (completeOne s w clock).2 = some record) :
    (∃ job ∈ s.jobs.rows, accepts s w (nextUpdatedAt w.job.updatedAt clock) job = true ∧
      job.id = w.item.jobId ∧ job.status = .processing ∧ job.updatedAt = w.item.claimedAt ∧
      job.factId = record.factId ∧ job.profileId = r.profile) ∧
    ∃ fact, s.facts.get? record.factId = some fact ∧
      eligible (nextUpdatedAt w.job.updatedAt clock) fact = true ∧
      record.contentHash = r.contentHash fact := by
  obtain ⟨hany, hdigest, rfl⟩ := completeOne_eq_some.1 h
  obtain ⟨job, hj, hacc⟩ := List.any_eq_true.1 hany
  obtain ⟨row, hrow, hid, hhash⟩ := hw.digest _ hdigest
  have hacc' := hacc
  simp only [accepts, hrow, hdigest, Bool.and_eq_true, Option.all_some, Option.isNone_some,
    Bool.false_or, Store.factGuard, Store.eligibleFact, decide_eq_true_eq] at hacc'
  obtain ⟨⟨hguard, hfact⟩, helig⟩ := hacc'
  obtain ⟨hjid, hjf, hjp, -, hst, hup, -⟩ := claimGuard_iff.1 hguard
  refine ⟨⟨job, hj, hacc, hjid.trans hw.job, hst, hup.trans hw.claim, hjf.trans hw.fact,
    hjp.trans hw.profile⟩, row, hid ▸ hfact, ?_, hhash⟩
  simpa [hfact] using helig

theorem Tokens.completeOne (h : Tokens s claims published) {w : PreparedWrite} (hw : w.Sound r)
    (clock : Int) : Tokens (completeOne s w clock).1 claims
      (((completeOne s w clock).2.map fun record =>
        (⟨w, clock, record⟩ : Publication).token).toList ++ published) := by
  have hmoved : Tokens (JobRepository.completeOne s w clock).1 claims published := by
    unfold JobRepository.completeOne
    dsimp only
    split
    · refine h.update fun row _ hg => ⟨rfl, rfl, rfl, lt_of_claimGuard (accepts_guard hg) clock,
        ?_, ?_⟩
      · dsimp only
        split <;> simp
      · dsimp only
        split <;> simp
    · exact h.update fun row _ hg => ⟨rfl, rfl, rfl, lt_of_claimGuard hg clock, by simp, by simp⟩
  cases hrec : (JobRepository.completeOne s w clock).2 with
  | none => simpa using hmoved
  | some record =>
    obtain ⟨⟨job, hj, hacc, hid, hst, hup, -, -⟩, -⟩ := completeOne_some hw hrec
    -- the row stands at the token before, and beyond it after
    have hcur : (w.item.jobId, w.item.claimedAt) ∈ claims := by
      have hc := h.current job hj hst
      rwa [hid, hup] at hc
    have hpast : ∀ a ∈ (JobRepository.completeOne s w clock).1.jobs.rows, a.id = w.item.jobId →
        w.item.claimedAt < a.updatedAt := by
      intro a ha he
      have hany := (completeOne_eq_some.1 hrec).1
      unfold JobRepository.completeOne at ha
      dsimp only at ha
      rw [if_pos hany] at ha
      obtain ⟨a0, ha0, rfl⟩ := List.mem_map.1 ha
      have hab : a0 = job := by
        refine Tokens.eq_of_id s ha0 hj ?_
        rw [hid, ← he]
        split <;> rfl
      subst hab
      rw [if_pos hacc]
      exact hw.claim ▸ lt_nextUpdatedAt _ _
    refine { hmoved with publishedClaims := ?_, publishedPast := ?_, once := ?_ }
    · intro c hc
      simp only [Option.map_some, Option.toList_some, List.cons_append, List.nil_append,
        List.mem_cons] at hc
      obtain rfl | hc := hc
      · exact hcur
      · exact h.publishedClaims c hc
    · intro c hc a ha he
      simp only [Option.map_some, Option.toList_some, List.cons_append, List.nil_append,
        List.mem_cons] at hc
      obtain rfl | hc := hc
      · exact hpast a ha he
      · exact hmoved.publishedPast c hc a ha he
    · simp only [Option.map_some, Option.toList_some, List.cons_append, List.nil_append]
      refine List.nodup_cons.2 ⟨fun hm => ?_, h.once⟩
      have hlt := h.publishedPast _ hm job hj hid
      simp only [Publication.token] at hlt
      omega

theorem Tokens.completeWrites (h : Tokens s claims published) (ws : List (PreparedWrite × Int))
    (hws : ∀ w ∈ ws, w.1.Sound r) : Tokens (completeWrites s ws).1 claims
      (((completeWrites s ws).2.map Publication.token).reverse ++ published) := by
  induction ws generalizing s published with
  | nil => simpa [JobRepository.completeWrites] using h
  | cons w ws ih =>
    obtain ⟨w, clock⟩ := w
    have hrest := ih (h.completeOne (hws _ List.mem_cons_self) clock)
      fun x hx => hws x (by simp [hx])
    simp only [JobRepository.completeWrites, List.map_append, List.reverse_append,
      List.append_assoc]
    cases hrec : (JobRepository.completeOne s w clock).2 with
    | none => simpa [hrec] using hrest
    | some record => simpa [hrec] using hrest

theorem completeOne_facts (w : PreparedWrite) (clock : Int) :
    (completeOne s w clock).1.facts = s.facts := by
  unfold completeOne
  dsimp only
  split <;> rfl

/-- A claim in force. -/
def Store.Current (s : Store) (token : Nat × Int) : Prop :=
  ∃ job, s.jobs.get? token.1 = some job ∧ job.status = .processing ∧ job.updatedAt = token.2

/-- A row under the claim guard is a claim in force. -/
theorem current_of_claimGuard {job row : EmbeddingJob} (hrow : row ∈ s.jobs.rows)
    (h : claimGuard job row = true) : s.Current (job.id, job.updatedAt) := by
  obtain ⟨hid, -, -, -, hst, hup, -⟩ := claimGuard_iff.1 h
  exact ⟨row, Table.get?_eq_some.2 ⟨hrow, hid⟩, hst, hup⟩

/-- A guarded update touches its own row only, and only while its claim is in force. -/
theorem get?_updateClaim (job : EmbeddingJob) (f : EmbeddingJob → EmbeddingJob)
    (hf : ∀ row, (f row).id = row.id) {k : Nat}
    (h : job.id = k → ¬ s.Current (k, job.updatedAt)) :
    (updateClaim s job f hf).jobs.get? k = s.jobs.get? k := by
  unfold updateClaim
  rw [Table.get?_update]
  cases hg : s.jobs.get? k with
  | none => rfl
  | some row =>
    have hno : claimGuard job row = false := by
      by_contra hne
      have hguard : claimGuard job row = true := by simpa using hne
      have hid : job.id = k := (claimGuard_iff.1 hguard).1.symm.trans (Table.get?_key hg)
      exact h hid (hid ▸ current_of_claimGuard (Table.get?_mem hg) hguard)
    simp [hno]

theorem get?_completeOne {w : PreparedWrite} (hw : w.Sound r) (clock : Int) {k : Nat}
    (h : w.item.jobId = k → ¬ s.Current (k, w.item.claimedAt)) :
    (completeOne s w clock).1.jobs.get? k = s.jobs.get? k := by
  rw [← hw.job, ← hw.claim] at h
  unfold completeOne
  dsimp only
  split
  · rw [Table.get?_update]
    cases hg : s.jobs.get? k with
    | none => rfl
    | some row =>
      have hno : accepts s w (nextUpdatedAt w.job.updatedAt clock) row = false := by
        by_contra hne
        have hguard := accepts_guard (by simpa using hne :
          accepts s w (nextUpdatedAt w.job.updatedAt clock) row = true)
        have hid : w.job.id = k := (claimGuard_iff.1 hguard).1.symm.trans (Table.get?_key hg)
        exact h hid (hid ▸ current_of_claimGuard (Table.get?_mem hg) hguard)
      simp [hno]
  · exact get?_updateClaim _ _ _ h

/-- A page of writers leaves alone a row for which it brings no claim in force. -/
theorem get?_foldl {α : Type} {f : Store → α → Store} (token : α → Nat × Int) {k : Nat}
    (hf : ∀ s a, ((token a).1 = k → ¬ s.Current (k, (token a).2)) →
      (f s a).jobs.get? k = s.jobs.get? k) {as : List α}
    (h : ∀ a ∈ as, (token a).1 = k → ¬ s.Current (k, (token a).2)) :
    (as.foldl f s).jobs.get? k = s.jobs.get? k := by
  induction as generalizing s with
  | nil => rfl
  | cons a as ih =>
    have ha := hf s a (h a (by simp))
    rw [List.foldl_cons, ih, ha]
    intro b hb he
    have hb' := h b (by simp [hb]) he
    simpa only [Store.Current, ha] using hb'

theorem get?_completeWrites {ws : List (PreparedWrite × Int)} (hws : ∀ w ∈ ws, w.1.Sound r) {k : Nat}
    (h : ∀ w ∈ ws, w.1.item.jobId = k → ¬ s.Current (k, w.1.item.claimedAt)) :
    (completeWrites s ws).1.jobs.get? k = s.jobs.get? k := by
  induction ws generalizing s with
  | nil => rfl
  | cons w ws ih =>
    have hw := get?_completeOne (hws w (by simp)) w.2 (h w (by simp))
    show (completeWrites (completeOne s w.1 w.2).1 ws).1.jobs.get? k = _
    rw [ih (fun x hx => hws x (by simp [hx])), hw]
    intro x hx he
    have hx' := h x (by simp [hx]) he
    simpa only [Store.Current, hw] using hx'

/-- A claim in force after a write was in force before it. -/
theorem current_of_completeOne {w : PreparedWrite} {clock : Int} {job : EmbeddingJob}
    (hj : job ∈ (completeOne s w clock).1.jobs.rows) (hp : job.status = .processing) :
    job ∈ s.jobs.rows := by
  unfold completeOne at hj
  dsimp only at hj
  split at hj
  · obtain ⟨a, ha, rfl⟩ := List.mem_map.1 hj
    split at hp
    · dsimp only at hp
      split at hp <;> simp at hp
    · next hno => simpa [hno] using ha
  · obtain ⟨a, ha, rfl⟩ := List.mem_map.1 hj
    split at hp
    · simp at hp
    · next hno => simpa [hno] using ha

/-- The row of an accepted write is done. -/
theorem not_processing_of_accepted {w : PreparedWrite} {clock : Int} {record : VectorRecord}
    (h : (completeOne s w clock).2 = some record) {job : EmbeddingJob}
    (hj : job ∈ (completeOne s w clock).1.jobs.rows) (hid : job.id = w.job.id) :
    job.status ≠ .processing := by
  have hany := (completeOne_eq_some.1 h).1
  obtain ⟨b, hb, hacc⟩ := List.any_eq_true.1 hany
  have hbid := (claimGuard_iff.1 (accepts_guard hacc)).1
  unfold completeOne at hj
  dsimp only at hj
  rw [if_pos hany] at hj
  obtain ⟨a, ha, rfl⟩ := List.mem_map.1 hj
  have hab : a = b := by
    refine Tokens.eq_of_id s ha hb ?_
    rw [hbid, ← hid]
    split <;> rfl
  subst hab
  rw [if_pos hacc]
  dsimp only
  split <;> simp

/-- What a page publishes: claims in force when it began, over eligible facts, one a fact. -/
structure PagePublications (r : JobRepository) (s : Store) (ps : List Publication) : Prop where
  current : ∀ p ∈ ps, ∃ job ∈ s.jobs.rows, job.id = p.token.1 ∧ job.status = .processing ∧
    job.updatedAt = p.token.2 ∧ job.factId = p.record.factId ∧ job.profileId = r.profile
  fact : ∀ p ∈ ps, ∃ fact, s.facts.get? p.record.factId = some fact ∧
    eligible p.clock fact = true ∧ p.record.contentHash = r.contentHash fact
  distinct : (ps.map fun p => p.record.factId).Nodup

theorem le_nextUpdatedAt (previous clock : Int) : clock ≤ nextUpdatedAt previous clock := by
  unfold nextUpdatedAt
  split <;> omega

theorem eligible_mono {now later : Int} {fact : FactRow} (hle : now ≤ later)
    (h : eligible later fact = true) : eligible now fact = true := by
  simp only [eligible, Bool.and_eq_true] at h ⊢
  refine ⟨h.1, ?_⟩
  cases hv : fact.validUntil with
  | none => rfl
  | some t =>
    have ht : later < t := by simpa [hv] using h.2
    simpa using hle.trans_lt ht

theorem pagePublications (h : Tokens s claims published) {ws : List (PreparedWrite × Int)}
    (hws : ∀ w ∈ ws, w.1.Sound r) : PagePublications r s (completeWrites s ws).2 := by
  induction ws generalizing s published with
  | nil => exact ⟨by simp [completeWrites], by simp [completeWrites], by simp [completeWrites]⟩
  | cons w ws ih =>
    obtain ⟨w, clock⟩ := w
    have hsound := hws _ (List.mem_cons_self)
    have hrest := ih (h.completeOne hsound clock) fun x hx => hws x (by simp [hx])
    have hfacts : (completeOne s w clock).1.facts = s.facts := completeOne_facts w clock
    have hcur : ∀ p ∈ (completeWrites (completeOne s w clock).1 ws).2, ∃ job ∈ s.jobs.rows,
        job.id = p.token.1 ∧ job.status = .processing ∧ job.updatedAt = p.token.2 ∧
          job.factId = p.record.factId ∧ job.profileId = r.profile := by
      intro p hp
      obtain ⟨job, hj, hid, hst, hrow⟩ := hrest.current p hp
      exact ⟨job, current_of_completeOne hj hst, hid, hst, hrow⟩
    have hfact : ∀ p ∈ (completeWrites (completeOne s w clock).1 ws).2, ∃ fact,
        s.facts.get? p.record.factId = some fact ∧ eligible p.clock fact = true ∧
          p.record.contentHash = r.contentHash fact := fun p hp => hfacts ▸ hrest.fact p hp
    cases hrec : (completeOne s w clock).2 with
    | none =>
      have hps : (completeWrites s ((w, clock) :: ws)).2 =
          (completeWrites (completeOne s w clock).1 ws).2 := by
        simp [completeWrites, hrec]
      rw [hps]
      exact ⟨hcur, hfact, hrest.distinct⟩
    | some record =>
      have hps : (completeWrites s ((w, clock) :: ws)).2 =
          ⟨w, clock, record⟩ :: (completeWrites (completeOne s w clock).1 ws).2 := by
        simp [completeWrites, hrec]
      obtain ⟨⟨job, hj, hacc, hid, hst, hup, hjf, hjp⟩, fact, hget, helig, hhash⟩ :=
        completeOne_some hsound hrec
      rw [hps]
      refine ⟨?_, ?_, ?_⟩
      · intro p hp
        obtain rfl | hp := List.mem_cons.1 hp
        · exact ⟨job, hj, hid, hst, hup, hjf, hjp⟩
        · exact hcur p hp
      · intro p hp
        obtain rfl | hp := List.mem_cons.1 hp
        · exact ⟨fact, hget, eligible_mono (le_nextUpdatedAt _ _) helig, hhash⟩
        · exact hfact p hp
      · refine List.nodup_cons.2 ⟨fun hm => ?_, hrest.distinct⟩
        -- another publication of the fact would need its job still in progress
        obtain ⟨p, hp, hpf⟩ := List.mem_map.1 hm
        obtain ⟨b, hb, -, hbst, -, hbf, hbp⟩ := hrest.current p hp
        have hbs := current_of_completeOne hb hbst
        have hsame : b.id = job.id := h.unique b hbs job hj (hbf.trans (hpf.trans hjf.symm))
          (hbp.trans hjp.symm)
        exact not_processing_of_accepted hrec hb (hsame.trans (hid.trans hsound.job.symm)) hbst

end Yuki.Embedding

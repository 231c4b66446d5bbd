import Yuki.Memory.Jobs

/-! The tokens of the queue as fencing tokens: `updated_at` of an unsettled row
never falls below a token that was handed out for it. -/

namespace Yuki

open MemoryJobRepository

/-- A row that may still be claimed, or is claimed. -/
def MemoryJobRow.Unsettled (row : MemoryJobRow) : Prop :=
  row.status = .pending ∨ row.status = .processing

namespace JobQueue

/-- The claim conditions hold for a token. -/
def Owned (q : JobQueue) (l : Nat × Int) : Prop :=
  ∃ row, q.jobs.get? l.1 = some row ∧ row.status = .processing ∧ row.updatedAt = l.2

/-- The tokens handed out so far, newest first, over the rows that honour them. -/
def tokens : Fencing (JobQueue × List (Nat × Int)) Nat (Nat × Int) where
  key := (·.1)
  token := (·.2)
  issued := (·.2)
  live s l := s.1.Owned l

structure Fenced (q : JobQueue) (issued : List (Nat × Int)) : Prop where
  ordered : tokens.Ordered (q, issued)
  bounded : ∀ l ∈ issued, ∀ row, q.jobs.get? l.1 = some row → row.Unsettled → l.2 ≤ row.updatedAt

variable {q q' : JobQueue} {issued : List (Nat × Int)}

theorem tokens_current (q : JobQueue) (issued : List (Nat × Int)) :
    tokens.Current (q, issued) := by
  rintro l - l' - ⟨row, hrow, -, hl⟩ ⟨row', hrow', -, hl'⟩ hk
  have hk' : l.1 = l'.1 := hk
  rw [hk', hrow'] at hrow
  obtain rfl := Option.some.inj hrow
  exact hl.symm.trans hl'

/-- At most one token of a job satisfies the claim conditions. -/
theorem Fenced.exclusive (h : q.Fenced issued) {l l' : Nat × Int} (hl : l ∈ issued)
    (hl' : l' ∈ issued) (hk : l.1 = l'.1) (ho : q.Owned l) (ho' : q.Owned l') : l = l' :=
  h.ordered.exclusive (tokens_current q issued) hl hl' ho ho' hk

theorem Fenced.nodup (h : q.Fenced issued) : issued.Nodup :=
  h.ordered.nodup

/-! What one statement does to the rows. -/

theorem claimConditions_iff {job : MemoryJob} {row : MemoryJobRow} :
    claimConditions job row = true ↔ row.id = job.id ∧ row.eventId = job.eventId ∧
      row.status = .processing ∧ row.updatedAt = job.updatedAt := by
  simp [claimConditions, and_assoc]

theorem claimable_iff {claim : PreparedJobClaim} {row : MemoryJobRow} :
    q.claimable claim row = true ↔ claim.liveEventId.all q.liveEventExists = true ∧
      row.id = claim.jobId ∧ row.status = claim.status ∧ row.updatedAt = claim.updatedAt := by
  simp only [claimable, Bool.and_eq_true, beq_iff_eq, and_assoc]

/-- A statement that only moves rows away from their tokens keeps the fence. -/
theorem Fenced.of_rows (h : q.Fenced issued)
    (hrow : ∀ l ∈ issued, ∀ row', q'.jobs.get? l.1 = some row' → row'.Unsettled →
      l.2 ≤ row'.updatedAt) : q'.Fenced issued :=
  ⟨h.ordered, hrow⟩

theorem Fenced.congr (h : q.Fenced issued) (hj : q'.jobs = q.jobs) : q'.Fenced issued :=
  h.of_rows fun l hl row hr hu => h.bounded l hl row (hj ▸ hr) hu

/-- The token of an accepted claim is above every earlier one of its job. -/
theorem Fenced.lt_token (h : q.Fenced issued) {claim : PreparedJobClaim} {row : MemoryJobRow}
    (hrow : row ∈ q.jobs.rows) (hc : q.claimable claim row = true)
    (hs : claim.status = .pending ∨ claim.status = .processing) (now : Int)
    {l : Nat × Int} (hl : l ∈ issued) (hk : claim.jobId = l.1) :
    l.2 < nextUpdatedAt claim.updatedAt now := by
  obtain ⟨-, hid, hst, hup⟩ := claimable_iff.mp hc
  have hget : q.jobs.get? l.1 = some row :=
    Table.get?_eq_some.mpr ⟨hrow, hid.trans hk⟩
  have hle := h.bounded l hl row hget (by rwa [MemoryJobRow.Unsettled, hst])
  have hlt := lt_nextUpdatedAt claim.updatedAt now
  omega

/-- One statement of a claim commit hands out at most one token, a new one. -/
theorem Fenced.commitJobClaim (h : q.Fenced issued) (claim : PreparedJobClaim)
    (hs : claim.status = .pending ∨ claim.status = .processing) (now : Int) :
    (q.commitJobClaim claim now).1.Fenced ((q.commitJobClaim claim now).2.toList ++ issued) := by
  unfold JobQueue.commitJobClaim
  cases hv : claim.values with
  | none =>
    refine h.of_rows fun l hl row hr hu => ?_
    rw [Table.get?_delete] at hr
    exact h.bounded l hl row (Option.filter_eq_some_iff.mp hr).1 hu
  | some values =>
    -- what an updated row of an older token stands at
    have hrows : ∀ l ∈ issued, ∀ row' : MemoryJobRow,
        (q.jobs.update (q.claimable claim) fun row =>
          { row with
            status := values.status
            errorCategory := values.errorCategory.or row.errorCategory
            updatedAt := nextUpdatedAt claim.updatedAt now }).get? l.1 = some row' →
        row'.Unsettled → l.2 ≤ row'.updatedAt := by
      intro l hl row' hr hu
      rw [Table.get?_update] at hr
      obtain ⟨row, hget, rfl⟩ := Option.map_eq_some_iff.mp hr
      by_cases hc : q.claimable claim row = true
      · have hid : claim.jobId = l.1 :=
          (claimable_iff.mp hc).2.1.symm.trans (Table.get?_key hget)
        simp only [hc, if_true]
        exact (h.lt_token (Table.get?_mem hget) hc hs now hl hid).le
      · simp only [hc] at hu ⊢
        exact h.bounded l hl row hget hu
    by_cases hp : values.status = .processing ∧ q.jobs.rows.any (q.claimable claim) = true
    · obtain ⟨row, hrow, hc⟩ := List.any_eq_true.mp hp.2
      simp only [if_pos hp, Option.toList_some, List.singleton_append]
      constructor
      · refine List.pairwise_cons.mpr ⟨fun l hl hk => ?_, h.ordered⟩
        exact h.lt_token hrow hc hs now hl hk
      · intro l hl row' hr hu
        rcases List.mem_cons.mp hl with rfl | hl
        · have hget : q.jobs.get? claim.jobId = some row :=
            Table.get?_eq_some.mpr ⟨hrow, (claimable_iff.mp hc).2.1⟩
          rw [Table.get?_update, hget] at hr
          obtain rfl := Option.some.inj hr
          simp [hc]
        · exact hrows l hl row' hr hu
    · simp only [if_neg hp, Option.toList_none, List.nil_append]
      exact h.of_rows hrows

/-- The whole transaction of a claim. -/
theorem Fenced.commitJobClaims (h : q.Fenced issued) (claims : List (PreparedJobClaim × Int))
    (hs : ∀ c ∈ claims, c.1.status = .pending ∨ c.1.status = .processing) :
    (q.commitJobClaims claims).1.Fenced ((q.commitJobClaims claims).2 ++ issued) := by
  unfold JobQueue.commitJobClaims
  suffices hall : ∀ accepted, q.Fenced (accepted ++ issued) →
      (claims.foldl (fun (s : JobQueue × List (Nat × Int)) c =>
        ((s.1.commitJobClaim c.1 c.2).1, (s.1.commitJobClaim c.1 c.2).2.toList ++ s.2))
        (q, accepted)).1.Fenced ((claims.foldl (fun (s : JobQueue × List (Nat × Int)) c =>
        ((s.1.commitJobClaim c.1 c.2).1, (s.1.commitJobClaim c.1 c.2).2.toList ++ s.2))
        (q, accepted)).2 ++ issued) from hall [] h
  clear h
  induction claims generalizing q with
  | nil => exact fun accepted h => h
  | cons c claims ih =>
    intro accepted h
    have hc := h.commitJobClaim c.1 (hs c List.mem_cons_self) c.2
    rw [← List.append_assoc] at hc
    exact ih (fun d hd => hs d (List.mem_cons_of_mem _ hd)) _ hc

/-! What a reader prepares. -/

/-- Claims of rows a reader may take, and jobs under different ids. -/
structure Sound (p : Preparation) : Prop where
  claims : ∀ c ∈ p.claims, c.status = .pending ∨ c.status = .processing
  jobs : (p.jobs.map (·.id)).Nodup

/-- A preparation, with the rows its loop has still to visit. -/
structure Fits (p : Preparation) (rows : List MemoryJobRow) : Prop where
  claims : ∀ c ∈ p.claims, c.status = .pending ∨ c.status = .processing
  unsettled : ∀ row ∈ rows, row.Unsettled
  ids : (p.jobs.map (·.id) ++ rows.map (·.id)).Nodup

namespace Fits

variable {p : Preparation} {row : MemoryJobRow} {rows : List MemoryJobRow}

theorem sound (h : Fits p rows) : Sound p :=
  ⟨h.claims, (List.nodup_append.mp h.ids).1⟩

/-- A row that yields a statement and no job. -/
theorem skip (h : Fits p (row :: rows)) (c : PreparedJobClaim) (hc : c.status = row.status) :
    Fits { p with claims := p.claims ++ [c] } rows := by
  refine ⟨fun d hd => ?_, fun r hr => h.unsettled r (List.mem_cons_of_mem _ hr), ?_⟩
  · rcases List.mem_append.mp hd with hd | hd
    · exact h.claims d hd
    · obtain rfl := List.mem_singleton.mp hd
      rw [hc]
      exact h.unsettled row List.mem_cons_self
  · have hsub : (rows.map (·.id)).Sublist ((row :: rows).map (·.id)) := List.sublist_cons_self _ _
    exact h.ids.sublist ((List.Sublist.refl _).append hsub)

/-- A row that yields a statement and a job of its own id. -/
theorem take (h : Fits p (row :: rows)) (c : PreparedJobClaim) (hc : c.status = row.status)
    (job : MemoryJob) (hj : job.id = row.id) :
    Fits { claims := p.claims ++ [c], jobs := p.jobs ++ [job] } rows := by
  have hs := h.skip c hc
  refine ⟨hs.claims, hs.unsettled, ?_⟩
  have hids := h.ids
  simpa [hj] using hids

end Fits

/-- The rows a reader looks at. -/
theorem fits_nil {rows : List MemoryJobRow} {n : Nat} (p : MemoryJobRow → Bool) (now : Int)
    (hrows : rows = (byId (q.jobs.rows.filter fun row => eligible now row && p row)).take n) :
    Fits {} rows := by
  have hsub : rows.Sublist (byId (q.jobs.rows.filter fun row => eligible now row && p row)) :=
    hrows ▸ List.take_sublist _ _
  have hperm := List.mergeSort_perm (q.jobs.rows.filter fun row => eligible now row && p row)
    fun r s => decide (r.id ≤ s.id)
  refine ⟨by simp, fun row hr => ?_, ?_⟩
  · have hmem := List.mem_filter.mp (hperm.mem_iff.mp (hsub.subset hr))
    have he := hmem.2
    simp only [eligible, Bool.and_eq_true, Bool.or_eq_true, beq_iff_eq] at he
    exact he.1.1.imp id And.left
  · have hnd : ((q.jobs.rows.filter fun row => eligible now row && p row).map (·.id)).Nodup :=
      (List.filter_sublist.map _).nodup q.jobs.nodup
    have hbyId := (hperm.map (·.id)).nodup_iff.mpr hnd
    simpa using (hsub.map (·.id)).nodup hbyId

theorem prepareClaim_sound (q : JobQueue) (now : Int) (limit : Nat) :
    Sound (prepareClaim q now limit) := by
  unfold prepareClaim
  have hfits := fits_nil (q := q) (n := max 1 limit) (fun _ => true) now rfl
  simp only [Bool.and_true] at hfits
  generalize (byId (q.jobs.rows.filter (eligible now))).take (max 1 limit) = rows at hfits
  generalize ({} : Preparation) = p at hfits
  induction rows generalizing p with
  | nil => exact hfits.sound
  | cons row rows ih =>
    rw [List.foldl_cons]
    cases admission q row with
    | drop => exact ih _ (hfits.skip _ rfl)
    | refuse category => exact ih _ (hfits.skip _ rfl)
    | accept event => exact ih _ (hfits.take _ rfl _ rfl)

theorem takeBatch_sound {now : Int} {maxCharacters characters : Nat} {trigger : String}
    {rows : List MemoryJobRow} {p p' : Preparation} (hfits : Fits p rows)
    (h : takeBatch q now maxCharacters trigger rows characters p = .ok p') : Sound p' := by
  induction rows generalizing p characters with
  | nil =>
    obtain rfl := Except.ok.inj h
    exact hfits.sound
  | cons row rows ih =>
    rw [takeBatch] at h
    split at h
    · exact ih (hfits.skip _ rfl) h
    · exact ih (hfits.skip _ rfl) h
    · obtain ⟨content, -, h⟩ := bind_eq_ok.mp h
      split at h
      · obtain rfl := Except.ok.inj h
        exact hfits.sound
      · exact ih (hfits.take _ rfl _ rfl) h

theorem prepareReadyBatch_sound {now : Int} {limits : BatchLimits} {p : Preparation}
    (h : prepareReadyBatch q now limits = .ok p) : Sound p := by
  unfold prepareReadyBatch at h
  split at h
  · obtain rfl := Except.ok.inj h
    exact ⟨by simp, by simp⟩
  · exact takeBatch_sound (fits_nil _ now rfl) h

/-! Accepted jobs carry accepted tokens. -/

theorem mem_acceptedJobs {jobs : List MemoryJob} {accepted : List (Nat × Int)} {job : MemoryJob}
    (h : job ∈ acceptedJobs jobs accepted) : (job.id, job.updatedAt) ∈ accepted := by
  obtain ⟨j, -, hj⟩ := List.mem_filterMap.mp h
  obtain ⟨t, ht, rfl⟩ := Option.map_eq_some_iff.mp hj
  obtain ⟨l₁, l₂, rfl, -⟩ := List.lookup_eq_some_iff.mp ht
  simp

theorem nodup_acceptedJobs {jobs : List MemoryJob} (h : (jobs.map (·.id)).Nodup)
    (accepted : List (Nat × Int)) : ((acceptedJobs jobs accepted).map (·.id)).Nodup := by
  have hsub : ((acceptedJobs jobs accepted).map (·.id)).Sublist (jobs.map (·.id)) := by
    unfold acceptedJobs
    induction jobs with
    | nil => simp
    | cons job jobs ih =>
      have ih := ih (List.nodup_cons.mp h).2
      rw [List.filterMap_cons]
      cases accepted.lookup job.id with
      | none => exact ih.cons _
      | some t => exact ih.cons_cons _
  exact hsub.nodup h

/-! Settled rows. -/

/-- A settled row is not touched by a claim. -/
theorem get?_commitJobClaim {claim : PreparedJobClaim}
    (hs : claim.status = .pending ∨ claim.status = .processing) {id : Nat} {row : MemoryJobRow}
    (hrow : q.jobs.get? id = some row) (hd : ¬ row.Unsettled) (now : Int) :
    (q.commitJobClaim claim now).1.jobs.get? id = some row := by
  have hn : q.claimable claim row = false := by
    by_contra hc
    rw [Bool.not_eq_false, claimable_iff] at hc
    exact hd (by rwa [MemoryJobRow.Unsettled, hc.2.2.1])
  unfold JobQueue.commitJobClaim
  cases claim.values with
  | none => simp [hrow, hn]
  | some values => simp [hrow, hn]

theorem get?_commitJobClaims {claims : List (PreparedJobClaim × Int)}
    (hs : ∀ c ∈ claims, c.1.status = .pending ∨ c.1.status = .processing) {id : Nat}
    {row : MemoryJobRow} (hrow : q.jobs.get? id = some row) (hd : ¬ row.Unsettled) :
    (q.commitJobClaims claims).1.jobs.get? id = some row := by
  unfold JobQueue.commitJobClaims
  generalize ([] : List (Nat × Int)) = accepted
  induction claims generalizing q accepted with
  | nil => exact hrow
  | cons c claims ih =>
    exact ih (fun d hd => hs d (List.mem_cons_of_mem _ hd))
      (get?_commitJobClaim (hs c List.mem_cons_self) hrow hd c.2) _

/-! Giving a job back. -/

theorem any_claimConditions {job : MemoryJob} :
    q.jobs.rows.any (claimConditions job) = true ↔
      ∃ row, q.jobs.get? job.id = some row ∧ claimConditions job row = true := by
  rw [List.any_eq_true]
  constructor
  · rintro ⟨row, hrow, hc⟩
    exact ⟨row, Table.get?_eq_some.mpr ⟨hrow, (claimConditions_iff.mp hc).1⟩, hc⟩
  · rintro ⟨row, hrow, hc⟩
    exact ⟨row, Table.get?_mem hrow, hc⟩

theorem owned_of_claimConditions {job : MemoryJob}
    (h : q.jobs.rows.any (claimConditions job) = true) : q.Owned (job.id, job.updatedAt) := by
  obtain ⟨row, hrow, hc⟩ := any_claimConditions.mp h
  obtain ⟨-, -, hs, hu⟩ := claimConditions_iff.mp hc
  exact ⟨row, hrow, hs, hu⟩

variable {job : MemoryJob} {f : MemoryJobRow → MemoryJobRow} {hf : ∀ r, (f r).id = r.id}

theorem finishClaim_eq_ok (h : finishClaim q job f hf = .ok q') :
    q.jobs.rows.any (claimConditions job) = true ∧
      q' = { q with jobs := q.jobs.update (claimConditions job) f hf } := by
  unfold finishClaim at h
  split at h
  case isTrue hc => exact ⟨hc, (Except.ok.inj h).symm⟩
  case isFalse => cases h

/-- Giving a job back leaves its rows' times at or above the tokens. -/
theorem Fenced.finishClaim (h : q.Fenced issued) (hq : finishClaim q job f hf = .ok q')
    (hrow : ∀ row, (f row).Unsettled → job.updatedAt ≤ (f row).updatedAt) :
    q'.Fenced issued := by
  obtain ⟨-, rfl⟩ := finishClaim_eq_ok hq
  refine h.of_rows fun l hl row' hr hu => ?_
  rw [Table.get?_update] at hr
  obtain ⟨row, hget, rfl⟩ := Option.map_eq_some_iff.mp hr
  by_cases hc : claimConditions job row = true
  · obtain ⟨-, -, hs, hup⟩ := claimConditions_iff.mp hc
    simp only [hc, if_true] at hu ⊢
    have hle := h.bounded l hl row hget (Or.inr hs)
    have hge := hrow row hu
    omega
  · simp only [hc] at hu ⊢
    exact h.bounded l hl row hget hu

theorem get?_finishClaim (hq : finishClaim q job f hf = .ok q') {id : Nat} {row : MemoryJobRow}
    (hrow : q.jobs.get? id = some row) (hd : ¬ row.Unsettled) : q'.jobs.get? id = some row := by
  obtain ⟨-, rfl⟩ := finishClaim_eq_ok hq
  have hn : ¬ claimConditions job row = true := fun hc =>
    hd (Or.inr (claimConditions_iff.mp hc).2.2.1)
  simp [hrow, hn]

/-- Completing a job settles its row, whenever the clock was read. -/
theorem Fenced.complete (h : q.Fenced issued) {outcome : MemoryRebuildJobOutcome}
    {category : Option String} {now : Int}
    (hq : MemoryJobRepository.complete q job outcome category now = .ok q') :
    q'.Fenced issued :=
  h.finishClaim hq fun row hu => by
    rcases hu with hu | hu <;> cases hu

/-- A failed job goes back to the queue at a time no earlier than its token. -/
theorem Fenced.fail (h : q.Fenced issued) {category : String} {now : Int}
    (hq : MemoryJobRepository.fail q job category now = .ok q') (ht : job.updatedAt ≤ now) :
    q'.Fenced issued :=
  h.finishClaim hq fun _ _ => ht

end JobQueue

end Yuki

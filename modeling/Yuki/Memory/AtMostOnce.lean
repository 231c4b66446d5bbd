import Yuki.Memory.Claimants

/-! A Memory mutation is applied at most once, and by the current claimant only. -/

namespace Yuki

open MemoryMutationService JobQueue

variable {M : Type} {services : MutationServices M}

/-! The transaction of one claim. -/

namespace MemoryMutationService

theorem reserve_eq_ok {db db' : MemoryDb M} {m : Ready services} {t : Int}
    (h : reserve services db m t = .ok db') :
    db.receipts.get? m.idempotencyKey = none ∧
      db' = { db with receipts := db.receipts.insert (reservedReceipt services db m t) } := by
  unfold reserve at h
  simp only [bind_eq_ok, require_eq_ok, pure_eq_ok] at h
  obtain ⟨-, ⟨hn, -⟩, rfl⟩ := h
  exact ⟨hn, rfl⟩

theorem lt_succ_foldl_max {ids : List Nat} {n : Nat} (h : n ∈ ids) (a : Nat) :
    n < ids.foldl max a + 1 := by
  have hle : ∀ (ids : List Nat) (a : Nat), a ≤ ids.foldl max a := by
    intro ids
    induction ids with
    | nil => exact fun a => le_rfl
    | cons x ids ih => exact fun a => (le_max_left a x).trans (ih _)
  induction ids generalizing a with
  | nil => cases h
  | cons x ids ih =>
    rcases List.mem_cons.mp h with rfl | h
    · have hx := hle ids (max a n)
      rw [List.foldl_cons]
      omega
    · exact ih h _

/-- The finalized receipt is the one new row. -/
theorem rows_finalize {db : MemoryDb M} {m : Ready services} {t : Int}
    (hn : db.receipts.get? m.idempotencyKey = none) (memory : M) (applied : AppliedMutation) :
    ∃ receipt : MemoryMutationReceipt, receipt.idempotencyKey = m.idempotencyKey ∧
      (finalize { db with
        receipts := db.receipts.insert (reservedReceipt services db m t), memory := memory }
        (reservedReceipt services db m t).id applied).receipts.rows =
          db.receipts.rows ++ [receipt] := by
  have hkey : (reservedReceipt services db m t).idempotencyKey ∉
      db.receipts.rows.map (·.idempotencyKey) := Table.get?_eq_none.mp hn
  have hrows : (db.receipts.insert (reservedReceipt services db m t)).rows =
      db.receipts.rows ++ [reservedReceipt services db m t] := by
    rw [Table.insert, dif_neg hkey]
  have hold : ∀ r ∈ db.receipts.rows, r.id ≠ (reservedReceipt services db m t).id :=
    fun r hr he => by
      have hlt := lt_succ_foldl_max (List.mem_map_of_mem (f := (·.id)) hr) 0
      simp only [reservedReceipt] at he
      omega
  refine ⟨{ reservedReceipt services db m t with
    appliedOperation := applied.operation
    oldFactId := applied.oldFactId
    newFactId := applied.newFactId
    outcome := applied.outcome
    reasonCode := .ofList (applied.reasonCode.toList.take 64) }, rfl, ?_⟩
  simp only [finalize, Table.rows_update, hrows, List.map_append, List.map_cons, List.map_nil,
    beq_self_eq_true, if_true]
  congr 1
  conv_rhs => rw [← List.map_id db.receipts.rows]
  refine List.map_congr_left fun r hr => ?_
  simp [hold r hr]

/-- A transaction either finds the receipt of an earlier one and writes nothing, or owns the
job and commits its changes with the one receipt of its key. -/
theorem apply_cases {db db' : MemoryDb M} {m : Ready services} {t : Int}
    {result : MemoryMutationResult} (h : apply services db m t = .ok (db', result)) :
    (result.deduplicated = true ∧ db' = db) ∨
      (result.deduplicated = false ∧ db.receipts.get? m.idempotencyKey = none ∧
        db.queue.jobs.rows.any (claimConditions m.request.job) = true ∧
        db'.queue = db.queue ∧
        (∃ processed, services.applyResolution db.memory m.claimResolution =
          .ok (db'.memory, processed)) ∧
        ∃ receipt, receipt.idempotencyKey = m.idempotencyKey ∧
          db'.receipts.rows = db.receipts.rows ++ [receipt]) := by
  unfold apply at h
  obtain ⟨-, -, h⟩ := bind_eq_ok.mp h
  split at h
  · obtain ⟨rfl, rfl⟩ := Prod.mk.inj (pure_eq_ok.mp h)
    exact Or.inl ⟨rfl, rfl⟩
  · rename_i hfind
    obtain ⟨_, hcheck, h⟩ := bind_eq_ok.mp h
    obtain ⟨db₁, hreserve, h⟩ := bind_eq_ok.mp h
    obtain ⟨⟨memory, processed⟩, happly, h⟩ := bind_eq_ok.mp h
    obtain ⟨receipt, -, h⟩ := bind_eq_ok.mp h
    obtain ⟨hdb, hresult⟩ := Prod.mk.inj (pure_eq_ok.mp h)
    obtain ⟨hn, rfl⟩ := reserve_eq_ok hreserve
    have hfence : db.queue.fence m.request.job = .ok () := by
      simp only [recheck, bind_eq_ok] at hcheck
      obtain ⟨_, -, _, -, _, -, _, -, hf⟩ := hcheck
      exact hf
    right
    refine ⟨by rw [← hresult]; rfl, hn, require_eq_ok.mp hfence, ?_⟩
    rw [← hdb]
    exact ⟨rfl, ⟨processed, happly⟩, rows_finalize hn memory (claimApplied processed)⟩

end MemoryMutationService

namespace Claimants

/-! What one step does. -/

/-- What a call under way has established. -/
def TaskSound : ClaimantTask services → Prop
  | .claiming p => JobQueue.Sound p
  | .failing job _ now => job.updatedAt ≤ now
  | _ => True

/-- The calls of the later state: old ones, or new ones that are sound. -/
def Continues (w w' : Claimants services) : Prop :=
  ∀ t ∈ w'.tasks, t ∈ w.tasks ∨ TaskSound t

inductive Effect (w : Claimants services) (a : ClaimantAction M) (w' : Claimants services) : Prop
  | quiet (hdb : w'.db = w.db) (hissued : w'.issued = w.issued) (hhanded : w'.handed = w.handed)
      (happlied : w'.applied = w.applied)
  | outside (events : Table ChatEventRow.id) (conversations : Table ConversationWatermark.id)
      (memory : M) (ha : a = .outside events conversations memory)
      (hjobs : w'.db.queue.jobs = w.db.queue.jobs) (hreceipts : w'.db.receipts = w.db.receipts)
      (hissued : w'.issued = w.issued) (hhanded : w'.handed = w.handed)
      (happlied : w'.applied = w.applied)
  | claim (p : MemoryJobRepository.Preparation) (hp : .claiming p ∈ w.tasks)
      (readings : List Int) (accepted : List (Nat × Int))
      (hq : w.db.queue.commitJobClaims (p.claims.zip readings) = (w'.db.queue, accepted))
      (hreceipts : w'.db.receipts = w.db.receipts) (hmemory : w'.db.memory = w.db.memory)
      (hissued : w'.issued = accepted ++ w.issued)
      (hhanded : w'.handed = (acceptedJobs p.jobs accepted).reverse ++ w.handed ∨
        w'.handed = w.handed)
      (happlied : w'.applied = w.applied) (ha : w.actor a = none)
  | mutation (m : Ready services) (result : MemoryMutationResult) (t : Int)
      (ha : w.actor a = some m.request.job)
      (hm : apply services w.db m t = .ok (w'.db, result))
      (hissued : w'.issued = w.issued) (hhanded : w'.handed = w.handed)
      (happlied : w'.applied =
        if result.deduplicated then w.applied else m.idempotencyKey :: w.applied)
  | complete (job : MemoryJob) (outcome : MemoryRebuildJobOutcome) (category : Option String)
      (now : Int) (ha : w.actor a = some job)
      (hq : MemoryJobRepository.complete w.db.queue job outcome category now = .ok w'.db.queue)
      (hreceipts : w'.db.receipts = w.db.receipts) (hmemory : w'.db.memory = w.db.memory)
      (hissued : w'.issued = w.issued) (hhanded : w'.handed = w.handed)
      (happlied : w'.applied = w.applied)
  | fail (job : MemoryJob) (category : String) (now : Int) (ha : w.actor a = some job)
      (htask : .failing job category now ∈ w.tasks)
      (hq : MemoryJobRepository.fail w.db.queue job category now = .ok w'.db.queue)
      (hreceipts : w'.db.receipts = w.db.receipts) (hmemory : w'.db.memory = w.db.memory)
      (hissued : w'.issued = w.issued) (hhanded : w'.handed = w.handed)
      (happlied : w'.applied = w.applied)

variable {w w' : Claimants services} {a : ClaimantAction M}

theorem continues_next (w : Claimants services) (i : Nat) (task : Option (ClaimantTask services))
    (h : ∀ t ∈ task, TaskSound t) : w.Continues (w.next i task) := by
  intro t ht
  rcases List.mem_append.mp ht with ht | ht
  · exact Or.inl (List.mem_of_mem_eraseIdx ht)
  · exact Or.inr (h t (Option.mem_toList.mp ht))

theorem continues_start (w : Claimants services) {task : ClaimantTask services}
    (h : TaskSound task) : w.Continues (w.start task) := by
  intro t ht
  rcases List.mem_append.mp ht with ht | ht
  · exact Or.inl ht
  · obtain rfl := List.mem_singleton.mp ht
    exact Or.inr h

theorem continues_of_tasks (h : w'.tasks = w.tasks) : w.Continues w' :=
  fun _ ht => Or.inl (h ▸ ht)

theorem step_effect (h : TimelyStep w a w') : Effect w a w' ∧ w.Continues w' := by
  obtain ⟨htimely, h⟩ := h
  unfold Step at h
  cases a with
  | tick now =>
    simp only [step, Option.ite_none_right_eq_some, Option.some.injEq] at h
    obtain ⟨-, rfl⟩ := h
    exact ⟨.quiet rfl rfl rfl rfl, continues_of_tasks rfl⟩
  | outside events conversations memory =>
    obtain rfl := Option.some.inj h
    exact ⟨.outside events conversations memory rfl rfl rfl rfl rfl rfl, continues_of_tasks rfl⟩
  | claim limit =>
    obtain rfl := Option.some.inj h
    exact ⟨.quiet rfl rfl rfl rfl, continues_start w (prepareClaim_sound _ _ _)⟩
  | claimReadyBatch limits now =>
    simp only [step] at h
    split at h
    · obtain rfl := Option.some.inj h
      exact ⟨.quiet rfl rfl rfl rfl, continues_of_tasks rfl⟩
    · rename_i p hp
      obtain rfl := Option.some.inj h
      exact ⟨.quiet rfl rfl rfl rfl, continues_start w (prepareReadyBatch_sound hp)⟩
  | commitClaims i readings acknowledged =>
    simp only [step] at h
    split at h
    · rename_i p hp
      split at h
      · obtain rfl := Option.some.inj h
        refine ⟨.claim p (List.mem_of_getElem? hp) readings _ rfl rfl rfl rfl ?_ rfl rfl, ?_⟩
        · cases acknowledged
          · exact Or.inr rfl
          · exact Or.inl rfl
        · exact continues_next w i none (by simp)
      · cases h
    · cases h
  | checkTrigger held claim event conversationKey =>
    obtain ⟨job, -, rfl⟩ := Option.map_eq_some_iff.mp h
    split
    · exact ⟨.quiet rfl rfl rfl rfl, continues_of_tasks rfl⟩
    · exact ⟨.quiet rfl rfl rfl rfl, continues_of_tasks rfl⟩
    · exact ⟨.quiet rfl rfl rfl rfl, continues_start w trivial⟩
  | readTarget i =>
    simp only [step] at h
    split at h
    · split at h
      all_goals
        obtain rfl := Option.some.inj h
        exact ⟨.quiet rfl rfl rfl rfl, continues_next w i _ (by simp [TaskSound])⟩
    · cases h
  | resolveClaim i mutationId =>
    simp only [step] at h
    split at h
    · split at h
      all_goals
        obtain rfl := Option.some.inj h
        exact ⟨.quiet rfl rfl rfl rfl, continues_next w i _ (by simp [TaskSound])⟩
    · cases h
  | commitMutation i acknowledged =>
    simp only [step] at h
    split at h
    · rename_i m hm
      split at h
      · obtain rfl := Option.some.inj h
        exact ⟨.quiet rfl rfl rfl rfl, continues_next w i _ (by simp [TaskSound])⟩
      · rename_i db result happly
        have ha : w.actor (.commitMutation i acknowledged) = some m.request.job := by
          simp only [actor, hm]
        obtain rfl := Option.some.inj h
        cases acknowledged
        · exact ⟨.mutation m result w.clock ha happly rfl rfl rfl,
            continues_next w i (some (.verifying m .connection)) (by simp [TaskSound])⟩
        · exact ⟨.mutation m result w.clock ha happly rfl rfl rfl,
            continues_next w i none (by simp)⟩
    · cases h
  | verify i =>
    simp only [step] at h
    split at h
    · obtain rfl := Option.some.inj h
      exact ⟨.quiet rfl rfl rfl rfl, continues_next w i none (by simp)⟩
    · cases h
  | complete held outcome category =>
    obtain ⟨job, -, rfl⟩ := Option.map_eq_some_iff.mp h
    exact ⟨.quiet rfl rfl rfl rfl, continues_start w trivial⟩
  | commitComplete i =>
    simp only [step] at h
    split at h
    · rename_i job outcome category now htask
      split at h
      · obtain rfl := Option.some.inj h
        exact ⟨.quiet rfl rfl rfl rfl, continues_next w i none (by simp)⟩
      · rename_i queue hq
        have ha : w.actor (.commitComplete i) = some job := by
          simp only [actor, htask]
        obtain rfl := Option.some.inj h
        exact ⟨.complete job outcome category now ha hq rfl rfl rfl rfl rfl,
          continues_next w i none (by simp)⟩
    · cases h
  | fail held category =>
    obtain ⟨job, hjob, rfl⟩ := Option.map_eq_some_iff.mp h
    have ht : job.updatedAt ≤ w.clock := by simpa [timely, hjob] using htimely
    exact ⟨.quiet rfl rfl rfl rfl, continues_start w ht⟩
  | commitFail i =>
    simp only [step] at h
    split at h
    · rename_i job category now htask
      split at h
      · obtain rfl := Option.some.inj h
        exact ⟨.quiet rfl rfl rfl rfl, continues_next w i none (by simp)⟩
      · rename_i queue hq
        have ha : w.actor (.commitFail i) = some job := by
          simp only [actor, htask]
        obtain rfl := Option.some.inj h
        exact ⟨.fail job category now ha (List.mem_of_getElem? htask) hq rfl rfl rfl rfl rfl,
          continues_next w i none (by simp)⟩
    · cases h
  | crash i =>
    obtain rfl := Option.some.inj h
    exact ⟨.quiet rfl rfl rfl rfl, continues_next w i none (by simp)⟩

/-! The invariant. -/

structure Inv (w : Claimants services) : Prop where
  fenced : w.db.queue.Fenced w.issued
  tasks : ∀ t ∈ w.tasks, TaskSound t
  handed : ∀ job ∈ w.handed, job.token ∈ w.issued
  nodup : (w.handed.map MemoryJob.token).Nodup
  applied : w.applied.Nodup
  receipts : ∀ key ∈ w.applied, ∃ receipt, w.db.receipts.get? key = some receipt

theorem Inv.of_fresh (h : w.Fresh) : w.Inv := by
  obtain ⟨ht, hh, hi, ha⟩ := h
  constructor
  · rw [hi]
    exact ⟨List.Pairwise.nil, by simp⟩
  all_goals simp [ht, hh, ha]

theorem zip_claims {p : MemoryJobRepository.Preparation} (h : JobQueue.Sound p)
    (readings : List Int) :
    ∀ c ∈ p.claims.zip readings, c.1.status = .pending ∨ c.1.status = .processing :=
  fun _ hc => h.claims _ (List.of_mem_zip hc).1

/-- The jobs of one commit join those handed out before under tokens of their own. -/
theorem nodup_handed {handed jobs : List MemoryJob} {accepted issued : List (Nat × Int)}
    (hjobs : (jobs.map (·.id)).Nodup) (hissued : (accepted ++ issued).Nodup)
    (hhanded : ∀ job ∈ handed, job.token ∈ issued) (hnd : (handed.map MemoryJob.token).Nodup) :
    (((acceptedJobs jobs accepted).reverse ++ handed).map MemoryJob.token).Nodup := by
  rw [List.map_append, List.nodup_append, List.map_reverse, List.nodup_reverse]
  refine ⟨?_, hnd, ?_⟩
  · have hids := nodup_acceptedJobs hjobs accepted
    exact List.Nodup.of_map (·.1) (by simpa [Function.comp_def, MemoryJob.token] using hids)
  · intro l hl l' hl' he
    obtain ⟨job, hjob, rfl⟩ := List.mem_map.mp (List.mem_reverse.mp hl)
    obtain ⟨job', hjob', rfl⟩ := List.mem_map.mp hl'
    exact (List.nodup_append.mp hissued).2.2 _ (mem_acceptedJobs hjob) _ (hhanded _ hjob') he

theorem Inv.step (hinv : w.Inv) (h : TimelyStep w a w') : w'.Inv := by
  obtain ⟨heffect, hcont⟩ := step_effect h
  have htasks : ∀ t ∈ w'.tasks, TaskSound t := fun t ht =>
    (hcont t ht).elim (hinv.tasks t) id
  cases heffect with
  | quiet hdb hissued hhanded happlied =>
    exact ⟨hdb ▸ hissued ▸ hinv.fenced, htasks, hhanded ▸ hissued ▸ hinv.handed,
      hhanded ▸ hinv.nodup, happlied ▸ hinv.applied, happlied ▸ hdb ▸ hinv.receipts⟩
  | outside _ _ _ _ hjobs hreceipts hissued hhanded happlied =>
    exact ⟨hissued ▸ hinv.fenced.congr hjobs, htasks, hhanded ▸ hissued ▸ hinv.handed,
      hhanded ▸ hinv.nodup, happlied ▸ hinv.applied, happlied ▸ hreceipts ▸ hinv.receipts⟩
  | claim p hp readings accepted hq hreceipts _ hissued hhanded happlied _ =>
    have hsound : JobQueue.Sound p := hinv.tasks _ hp
    have hfenced := hinv.fenced.commitJobClaims _ (zip_claims hsound readings)
    rw [hq, ← hissued] at hfenced
    have hnd : (accepted ++ w.issued).Nodup := hissued ▸ hfenced.nodup
    refine ⟨hfenced, htasks, ?_, ?_, happlied ▸ hinv.applied,
      happlied ▸ hreceipts ▸ hinv.receipts⟩
    · intro job hjob
      rw [hissued, List.mem_append]
      rcases hhanded with he | he
      · rw [he, List.mem_append, List.mem_reverse] at hjob
        exact hjob.imp mem_acceptedJobs (hinv.handed job)
      · exact Or.inr (hinv.handed job (he ▸ hjob))
    · rcases hhanded with he | he
      · rw [he]
        exact nodup_handed hsound.jobs hnd hinv.handed hinv.nodup
      · exact he ▸ hinv.nodup
  | mutation m result t _ hm hissued hhanded happlied =>
    rcases apply_cases hm with ⟨hd, hdb⟩ | ⟨hd, hn, -, hqueue, -, receipt, hkey, hrows⟩
    · rw [hd, if_pos rfl] at happlied
      exact ⟨hdb ▸ hissued ▸ hinv.fenced, htasks, hhanded ▸ hissued ▸ hinv.handed,
        hhanded ▸ hinv.nodup, happlied ▸ hinv.applied, happlied ▸ hdb ▸ hinv.receipts⟩
    · rw [hd, if_neg Bool.false_ne_true] at happlied
      have hnot : m.idempotencyKey ∉ w.applied := fun hmem => by
        obtain ⟨r, hr⟩ := hinv.receipts _ hmem
        rw [hn] at hr
        cases hr
      refine ⟨hqueue ▸ hissued ▸ hinv.fenced, htasks, hhanded ▸ hissued ▸ hinv.handed,
        hhanded ▸ hinv.nodup, happlied ▸ List.nodup_cons.mpr ⟨hnot, hinv.applied⟩, ?_⟩
      intro key hmem
      rw [happlied] at hmem
      refine Table.get?_isSome.mpr ?_
      rw [hrows, List.map_append, List.mem_append]
      rcases List.mem_cons.mp hmem with rfl | hmem
      · exact Or.inr (by simp [hkey])
      · exact Or.inl (Table.get?_isSome.mp (hinv.receipts key hmem))
  | complete job outcome category now _ hq hreceipts _ hissued hhanded happlied =>
    exact ⟨hissued ▸ hinv.fenced.complete hq, htasks, hhanded ▸ hissued ▸ hinv.handed,
      hhanded ▸ hinv.nodup, happlied ▸ hinv.applied, happlied ▸ hreceipts ▸ hinv.receipts⟩
  | fail job category now _ htask hq hreceipts _ hissued hhanded happlied =>
    exact ⟨hissued ▸ hinv.fenced.fail hq (hinv.tasks _ htask), htasks,
      hhanded ▸ hissued ▸ hinv.handed, hhanded ▸ hinv.nodup, happlied ▸ hinv.applied,
      happlied ▸ hreceipts ▸ hinv.receipts⟩

/-! What a step may commit. -/

/-- Fact changes come with one new receipt of their key, and only from a claimant whose
token still satisfies the conditions. -/
structure Guarded (w : Claimants services) (a : ClaimantAction M) (w' : Claimants services) :
    Prop where
  stale : ∀ job, w.actor a = some job →
    w.db.queue.jobs.rows.any (claimConditions job) = false → w'.db = w.db
  facts : (w'.applied = w.applied ∧ w'.db.receipts = w.db.receipts ∧
      (w'.db.memory = w.db.memory ∨ ∃ events conversations memory,
        a = .outside events conversations memory)) ∨
    ∃ (key : String) (receipt : MemoryMutationReceipt) (job : MemoryJob),
      w.actor a = some job ∧ w.db.queue.jobs.rows.any (claimConditions job) = true ∧
      key ∉ w.applied ∧ w'.applied = key :: w.applied ∧ receipt.idempotencyKey = key ∧
      w'.db.receipts.rows = w.db.receipts.rows ++ [receipt]

theorem Inv.guarded (hinv : w.Inv) (h : TimelyStep w a w') : w.Guarded a w' := by
  obtain ⟨heffect, -⟩ := step_effect h
  cases heffect with
  | quiet hdb _ _ happlied =>
    exact ⟨fun _ _ _ => hdb, Or.inl ⟨happlied, by rw [hdb], Or.inl (by rw [hdb])⟩⟩
  | outside events conversations memory ha _ hreceipts _ _ happlied =>
    subst ha
    refine ⟨fun _ hactor => (nomatch hactor), Or.inl ⟨happlied, hreceipts, ?_⟩⟩
    exact Or.inr ⟨events, conversations, memory, rfl⟩
  | claim p hp readings accepted hq hreceipts hmemory _ _ happlied ha =>
    refine ⟨fun job hactor => ?_, Or.inl ⟨happlied, hreceipts, Or.inl hmemory⟩⟩
    rw [ha] at hactor
    cases hactor
  | mutation m result t ha hm _ _ happlied =>
    rcases apply_cases hm with ⟨hd, hdb⟩ | ⟨hd, hn, howned, -, -, receipt, hkey, hrows⟩
    · rw [hd, if_pos rfl] at happlied
      exact ⟨fun _ _ _ => hdb, Or.inl ⟨happlied, by rw [hdb], Or.inl (by rw [hdb])⟩⟩
    · rw [hd, if_neg Bool.false_ne_true] at happlied
      have hnot : m.idempotencyKey ∉ w.applied := fun hmem => by
        obtain ⟨r, hr⟩ := hinv.receipts _ hmem
        rw [hn] at hr
        cases hr
      refine ⟨fun job hactor hstale => ?_,
        Or.inr ⟨m.idempotencyKey, receipt, m.request.job, ha, howned, hnot, happlied, hkey, hrows⟩⟩
      obtain rfl := Option.some.inj (ha.symm.trans hactor)
      rw [howned] at hstale
      cases hstale
  | complete job outcome category now ha hq hreceipts hmemory _ _ happlied =>
    refine ⟨fun job' hactor hstale => ?_, Or.inl ⟨happlied, hreceipts, Or.inl hmemory⟩⟩
    obtain rfl := Option.some.inj (ha.symm.trans hactor)
    rw [(finishClaim_eq_ok hq).1] at hstale
    cases hstale
  | fail job category now ha htask hq hreceipts hmemory _ _ happlied =>
    refine ⟨fun job' hactor hstale => ?_, Or.inl ⟨happlied, hreceipts, Or.inl hmemory⟩⟩
    obtain rfl := Option.some.inj (ha.symm.trans hactor)
    rw [(finishClaim_eq_ok hq).1] at hstale
    cases hstale

/-- A settled row is final. -/
theorem Inv.settled (hinv : w.Inv) (h : TimelyStep w a w') {id : Nat} {row : MemoryJobRow}
    (hrow : w.db.queue.jobs.get? id = some row) (hd : ¬ row.Unsettled) :
    w'.db.queue.jobs.get? id = some row := by
  obtain ⟨heffect, -⟩ := step_effect h
  cases heffect with
  | quiet hdb => rw [hdb, hrow]
  | outside _ _ _ _ hjobs => rw [hjobs, hrow]
  | claim p hp readings accepted hq =>
    have hget := get?_commitJobClaims (zip_claims (hinv.tasks _ hp) readings) hrow hd
    rwa [hq] at hget
  | mutation m result t _ hm =>
    rcases apply_cases hm with ⟨-, hdb⟩ | ⟨-, -, -, hqueue, -⟩
    · rw [hdb, hrow]
    · rw [hqueue, hrow]
  | complete job outcome category now _ hq => exact get?_finishClaim hq hrow hd
  | fail job category now _ _ hq => exact get?_finishClaim hq hrow hd

/-! Runs. -/

variable {w₀ : Claimants services} {as : List (ClaimantAction M)}

theorem Inv.run (hinv : w.Inv) (h : Run TimelyStep w as w') : w'.Inv :=
  Run.invariant (fun _ _ _ hi hs => Inv.step hi hs) h hinv

theorem Inv.settled_run (hinv : w.Inv) (h : Run TimelyStep w as w') {id : Nat}
    {row : MemoryJobRow} (hrow : w.db.queue.jobs.get? id = some row) (hd : ¬ row.Unsettled) :
    w'.db.queue.jobs.get? id = some row := by
  induction h with
  | nil => exact hrow
  | cons hs _ ih => exact ih (hinv.step hs) (hinv.settled hs hrow hd)

/-- Where every failing claimant reads a clock not before its token: tokens of a job grow, one
claimant at most owns it, every key is applied once under one receipt, nothing is committed
under a lost token, and `done` is final. -/
theorem claims_fenced (hfresh : w₀.Fresh) (hrun : Run TimelyStep w₀ as w) :
    (w.issued.Pairwise fun l l' => l.1 = l'.1 → l'.2 < l.2) ∧
    (w.handed.map MemoryJob.token).Nodup ∧
    (∀ job ∈ w.handed, ∀ job' ∈ w.handed, job.id = job'.id →
      w.db.queue.jobs.rows.any (claimConditions job) = true →
      w.db.queue.jobs.rows.any (claimConditions job') = true → job = job') ∧
    w.applied.Nodup ∧
    (∀ key ∈ w.applied, ∃! receipt, receipt ∈ w.db.receipts.rows ∧
      receipt.idempotencyKey = key) ∧
    (∀ a w', TimelyStep w a w' → w.Guarded a w') ∧
    ∀ bs w', Run TimelyStep w bs w' → ∀ id row, w.db.queue.jobs.get? id = some row →
      row.status = .done → w'.db.queue.jobs.get? id = some row := by
  have hinv : w.Inv := (Inv.of_fresh hfresh).run hrun
  refine ⟨hinv.fenced.ordered, hinv.nodup, ?_, hinv.applied, ?_, fun _ _ h => hinv.guarded h, ?_⟩
  · intro job hjob job' hjob' hid ho ho'
    have ht : job.token = job'.token := hinv.fenced.exclusive (hinv.handed job hjob)
      (hinv.handed job' hjob') hid (owned_of_claimConditions ho) (owned_of_claimConditions ho')
    exact List.inj_on_of_nodup_map hinv.nodup hjob hjob' ht
  · intro key hkey
    obtain ⟨receipt, hr⟩ := hinv.receipts key hkey
    refine ⟨receipt, Table.get?_eq_some.mp hr, fun r hmem => ?_⟩
    have hr' := Table.get?_eq_some.mpr hmem
    exact Option.some.inj (hr'.symm.trans hr)
  · intro bs w' h id row hrow hdone
    refine hinv.settled_run h hrow fun hu => ?_
    rw [MemoryJobRow.Unsettled, hdone] at hu
    rcases hu with hu | hu <;> cases hu

/-! A queue of one job. -/

def sampleEvent : ChatEventRow :=
  { record :=
      { id := 7, senderUserId := "10001", direction := .inbound, content := "I live in Kyoto",
        visualSummary := "", segments := [], occurredAt := 0, platform := "qq",
        audioTranscript := "", senderNickname := "A", senderGroupCard := "",
        replyToMessageId := none, replyToEventId := none, origin := "user_message",
        eventKind := .message, externalSource := none, externalEventType := none,
        canonicalConversationId := some "c1", authorKind := some "person",
        authorPersonId := some "p1", authorPresenceId := none, authorAccountId := none,
        suppressionStatus := none, causedByEventId := none, causedByExternalSource := none,
        causedByExternalEventType := none }
    botUserId := "90001"
    groupId := none
    canonicalEventId := some "e7" }

/-- Owners and sources stay as they are, and a resolution adds one fact. -/
def sampleServices : MutationServices Nat where
  SourceProof := Unit
  Resolution := Unit
  EvidencePreparation := Unit
  sha256 _ := "fingerprint"
  casefold s := s
  requestedTargetOwners _ _ := .ok ⟨some "p1", none, none, none⟩
  ownersMatchEvent _ _ _ := true
  personEnabled _ _ := true
  currentPersonId _ p := some p
  mutationSourceSnapshot _ _ _ := .ok ()
  mutationSourcesCurrent _ _ := true
  resolve _ _ := ()
  prepareWrite _ _ := .ok ()
  usePreparedWrite _ _ := .ok ()
  applyResolution facts _ := .ok (facts + 1, ⟨some (facts + 1), .create, "created"⟩)

def sampleClaimants : Claimants sampleServices where
  clock := 100
  db :=
    { queue :=
        { jobs := Table.empty.insert
            { id := 1, eventId := 7, conversationKey := "private:10001",
              canonicalPersonId := some "p1", canonicalSpaceId := none, nextAttemptAt := 100,
              createdAt := 100, updatedAt := 100 }
          events := Table.empty.insert sampleEvent
          conversations := Table.empty.insert ⟨"c1", 0, 0⟩ }
      memory := 0 }

def sampleClaim : ValidatedMemoryClaim :=
  { operation := .assert
    fact := { scopeType := "person", visibilityType := none, memoryKey := "home",
              content := "lives in Kyoto", dump := .obj [] }
    evidence := { eventId := some 7, sourceSpeakerUserId := "10001", dump := .obj [] } }

/-- Two workers read the job; the one that fails at an unmoved clock gives the other its token. -/
def stalledSchedule : List (ClaimantAction Nat) :=
  [.claim 1, .claim 1, .commitClaims 1 [100] true, .fail 0 "TimeoutError", .commitFail 1,
    .commitClaims 0 [100] true]

/-- With a clock that does not move, a token is handed out twice. -/
theorem stalled_clock_reissues :
    ∃ as w, Run Step sampleClaimants as w ∧ ¬ (w.handed.map MemoryJob.token).Nodup := by
  have hplay : ((sampleClaimants.play stalledSchedule).map fun w =>
      w.handed.map MemoryJob.token) = some [(1, 101), (1, 101)] := by decide +kernel
  obtain ⟨w, hw, ht⟩ := Option.map_eq_some_iff.mp hplay
  refine ⟨stalledSchedule, w, run_of_play hw, ?_⟩
  rw [ht]
  decide

/-- A claim is prepared twice under one job, and the unacknowledged commit is verified. -/
def fencedSchedule : List (ClaimantAction Nat) :=
  [.claim 1, .commitClaims 0 [100] true, .tick 101, .fail 0 "TimeoutError", .commitFail 0,
    .tick 40000000, .claim 1, .commitClaims 0 [40000000] true,
    .checkTrigger 0 sampleClaim (some sampleEvent) "private:10001", .readTarget 0,
    .resolveClaim 0 "m1", .checkTrigger 0 sampleClaim (some sampleEvent) "private:10001",
    .readTarget 1, .resolveClaim 1 "m2", .commitMutation 0 false, .commitMutation 0 true,
    .verify 0, .complete 0 .claimsApplied none, .commitComplete 0]

theorem claims_fenced_sample :
    ∃ w, Run TimelyStep sampleClaimants fencedSchedule w ∧ w.db.memory = 1 ∧
      w.applied.Nodup ∧ (w.handed.map MemoryJob.token).Nodup := by
  have hplay : ((sampleClaimants.playTimely fencedSchedule).map fun w => w.db.memory) = some 1 := by
    decide +kernel
  obtain ⟨w, hw, hm⟩ := Option.map_eq_some_iff.mp hplay
  have hrun := run_of_playTimely hw
  obtain ⟨-, hhanded, -, happlied, -⟩ := claims_fenced ⟨rfl, rfl, rfl, rfl⟩ hrun
  exact ⟨w, hrun, hm, happlied, hhanded⟩

end Claimants

end Yuki

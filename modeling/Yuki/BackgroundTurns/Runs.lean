import Yuki.BackgroundTurns.Attempts

/-! Turn jobs and their Works over any interleaving of workers, crashes and
writers of the Works. -/

namespace Yuki.BackgroundTurns

/-- The store, the attempts that were handed out and the jobs to which one was given back,
newest first. -/
structure World where
  store : Store
  handed : List (Nat × Nat) := []
  returned : List Nat := []

/-- A transaction on the jobs, or one on the Works. A worker that crashes does nothing more. -/
inductive Event
  | turn (o : TurnOp)
  | work (e : Option (LifecycleOp × Time))

/-- The jobs to which an operation gives an attempt back. -/
def TurnOp.returns (s : Store) (o : TurnOp) : List Nat :=
  (s.jobs.rows.filter o.givesBack).map JobRow.id

def World.after (w : World) (o : TurnOp) : World where
  store := (o.exec w.store).1
  handed := ((o.exec w.store).2.map fun job => (job.id, job.attempts)).toList ++ w.handed
  returned := o.returns w.store ++ w.returned

inductive World.Step : World → Event → World → Prop
  | turn (w : World) (o : TurnOp) : Step w (.turn o) (w.after o)
  | work {w : World} {e : Option (LifecycleOp × Time)} {db : Db}
      (h : LifecycleStep w.store.db e db) :
      Step w (.work e) { w with store := { w.store with db := db } }

/-- No job yet. -/
def World.start (db : Db) : World where
  store := { db := db }

/-- The Works that an event resumes explicitly. -/
def Event.resumes : Event → Option String
  | .turn _ => none
  | .work e => e.bind fun e => e.1.resumes

theorem World.Step.lasting {w w' : World} {e : Event} (h : w.Step e w') :
    Lasting e.resumes w.store.db w'.store.db := by
  cases h with
  | turn o => exact (o.sound w.store).lasting
  | work h => exact h.lasting

/-- What a job is before and after an event. -/
inductive World.Follows (w : World) (e : Event) (w' : World) (row row' : JobRow) : Prop
  | turn (o : TurnOp) (event : e = .turn o) (change : JobChange o w.store w'.store row row')
  | work (o : Option (LifecycleOp × Time)) (event : e = .work o) (row_ : row' = row)

theorem World.Step.old {w w' : World} {e : Event} (h : w.Step e w') {id : Nat} {row : JobRow}
    (hrow : w.store.jobs.get? id = some row) :
    ∃ row', w'.store.jobs.get? id = some row' ∧ w.Follows e w' row row' := by
  cases h with
  | turn o =>
    obtain ⟨row', hrow', hchange⟩ := (o.sound w.store).changes.old id row hrow
    exact ⟨row', hrow', .turn o rfl hchange⟩
  | work h => exact ⟨row, hrow, .work _ rfl rfl⟩

theorem World.Step.new {w w' : World} {e : Event} (h : w.Step e w') {id : Nat} {row : JobRow}
    (hnone : w.store.jobs.get? id = none) (hrow : w'.store.jobs.get? id = some row) :
    row.Unclaimed := by
  cases h with
  | turn o => exact (o.sound w.store).changes.new id row hnone hrow
  | work h =>
    have hrow : w.store.jobs.get? id = some row := hrow
    rw [hnone] at hrow
    cases hrow

/-- The link to a Work is only made, by an owned attempt. -/
theorem World.Follows.workId {w w' : World} {e : Event} {row row' : JobRow}
    (h : w.Follows e w' row row') : row'.workId = row.workId ∨
      row.workId = none ∧ row'.status = .processing ∧
        ∃ id work, row'.workId = some id ∧ w'.store.db.works.get? id = some work := by
  cases h with
  | turn o _ hchange =>
    cases hchange with
    | bound _ hstatus _ _ hwork hexists =>
      obtain hnone | hsame := hwork
      · exact .inr ⟨hnone, hstatus, hexists⟩
      · exact .inl hsame
    | kept _ _ _ hwork => exact .inl hwork
    | taken _ _ _ _ _ _ hwork => exact .inl hwork
    | released _ _ _ _ _ hwork => exact .inl hwork
    | ended _ _ _ hwork => exact .inl hwork
    | revoked _ _ _ hwork => exact .inl hwork
  | work _ _ hrow => exact .inl (by rw [hrow])

theorem World.Follows.attempts {w w' : World} {e : Event} {row row' : JobRow}
    (h : w.Follows e w' row row') : row.attempts ≤ row'.attempts := by
  cases h with
  | turn o _ hchange => cases hchange <;> omega
  | work _ _ hrow => rw [hrow]

/-- A job that was closed. -/
def JobRow.Closed (row : JobRow) : Prop :=
  row.status = .failed ∨ row.status = .cancelled

/-- A job ends with its Work, unless its target is revoked. -/
theorem World.Follows.ends {w w' : World} {e : Event} {row row' : JobRow}
    (h : w.Follows e w' row row') (hclosed : row'.Closed) (hopen : ¬ row.Closed) :
    WorkEnded w'.store.db row'.workId ∨
      ∃ now g, e = .turn (.revokeTarget now g) ∧ g.matches row = true := by
  cases h with
  | turn o he hchange =>
    cases hchange with
    | kept hstatus => exact absurd (by rwa [JobRow.Closed, hstatus] at hclosed) hopen
    | taken _ _ _ hstatus => simp [JobRow.Closed, hstatus] at hclosed
    | released _ hstatus => simp [JobRow.Closed, hstatus] at hclosed
    | bound _ hstatus => simp [JobRow.Closed, hstatus] at hclosed
    | ended _ _ _ _ hstatus =>
      obtain hdone | ⟨-, hended⟩ := hstatus
      · simp [JobRow.Closed, hdone] at hclosed
      · exact .inl hended
    | revoked hop =>
      obtain ⟨now, g, rfl, hm⟩ := hop
      exact .inr ⟨now, g, he, hm⟩
  | work _ _ hrow => exact absurd (hrow ▸ hclosed) hopen

/-! Every bound Work exists. -/

def World.Linked (w : World) : Prop :=
  ∀ id row workId, w.store.jobs.get? id = some row → row.workId = some workId →
    ∃ work, w.store.db.works.get? workId = some work

theorem linked_step {w w' : World} {e : Event} (hl : w.Linked) (h : w.Step e w') : w'.Linked := by
  intro id row' workId hrow' hwork
  cases hrow : w.store.jobs.get? id with
  | none =>
    rw [(h.new hrow hrow').workId] at hwork
    cases hwork
  | some row =>
    obtain ⟨new, hnew, hfollows⟩ := h.old hrow
    obtain rfl := Option.some.inj (hrow'.symm.trans hnew)
    obtain hsame | ⟨-, -, linked, work, hlinked, hget⟩ := hfollows.workId
    · obtain ⟨work, hget⟩ := hl id row workId hrow (hsame ▸ hwork)
      exact h.lasting.present workId work hget
    · obtain rfl := Option.some.inj (hwork.symm.trans hlinked)
      exact ⟨work, hget⟩

/-- In every closed job's Work nothing runs any more. -/
def World.ClosedTogether (w : World) : Prop :=
  ∀ id row, w.store.jobs.get? id = some row → row.Closed → WorkEnded w.store.db row.workId

/-- The event neither revokes the target of a job whose Work goes on nor resumes the Work of a
closed job. -/
def World.Orderly (w : World) (e : Event) : Prop :=
  (∀ now g, e = .turn (.revokeTarget now g) → ∀ row ∈ w.store.jobs.rows, g.matches row = true →
    WorkEnded w.store.db row.workId) ∧
  ∀ row ∈ w.store.jobs.rows, row.Closed → ∀ workId, row.workId = some workId →
    e.resumes ≠ some workId

/-- A Work that ended stays so unless it is resumed. -/
theorem workEnded_lasts {w w' : World} {e : Event} (hl : w.Linked) (h : w.Step e w') {id : Nat}
    {row : JobRow} (hrow : w.store.jobs.get? id = some row)
    (hended : WorkEnded w.store.db row.workId)
    (hresume : ∀ workId, row.workId = some workId → e.resumes ≠ some workId) :
    WorkEnded w'.store.db row.workId := by
  intro workId work hwork hget
  obtain ⟨before, hbefore⟩ := hl id row workId hrow hwork
  have hterminal := hended workId before hwork hbefore
  obtain ⟨after, hafter, hsame | ⟨-, hres, -⟩⟩ := h.lasting.finished workId before hbefore hterminal
  · obtain rfl := Option.some.inj (hget.symm.trans hafter)
    rw [hsame]
    exact hterminal
  · exact absurd hres (hresume workId hwork)

theorem closedTogether_step {w w' : World} {e : Event} (hl : w.Linked) (hc : w.ClosedTogether)
    (h : w.Step e w') (ho : w.Orderly e) : w'.ClosedTogether := by
  intro id row' hrow' hclosed
  cases hrow : w.store.jobs.get? id with
  | none =>
    rw [(h.new hrow hrow').workId]
    rintro workId work ⟨⟩
  | some row =>
    have hmem := Table.get?_mem hrow
    obtain ⟨new, hnew, hfollows⟩ := h.old hrow
    obtain rfl := Option.some.inj (hrow'.symm.trans hnew)
    obtain hsame | ⟨-, hstatus, -⟩ := hfollows.workId
    · rw [hsame]
      by_cases hbefore : row.Closed
      · exact workEnded_lasts hl h hrow (hc id row hrow hbefore) (ho.2 row hmem hbefore)
      · obtain hended | ⟨now, g, rfl, hm⟩ := hfollows.ends hclosed hbefore
        · exact hsame ▸ hended
        · exact workEnded_lasts hl h hrow (ho.1 now g rfl row hmem hm) (by rintro workId - ⟨⟩)
    · simp [JobRow.Closed, hstatus] at hclosed

/-! The budget of attempts. -/

theorem count_returns {o : TurnOp} {s : Store} {id : Nat} {row : JobRow}
    (h : s.jobs.get? id = some row) : (o.returns s).count id = if o.givesBack row then 1 else 0 := by
  obtain ⟨hmem, hid⟩ := Table.get?_eq_some.mp h
  have hnodup : ((s.jobs.rows.filter o.givesBack).map JobRow.id).Nodup :=
    (List.Sublist.map _ List.filter_sublist).nodup s.jobs.nodup
  split
  · next hback =>
    refine List.count_eq_one_of_mem hnodup ?_
    exact List.mem_map.mpr ⟨row, List.mem_filter.mpr ⟨hmem, hback⟩, hid⟩
  · next hback =>
    refine List.count_eq_zero_of_not_mem fun hin => ?_
    obtain ⟨r, hr, hrid⟩ := List.mem_map.mp hin
    obtain ⟨hr, hrback⟩ := List.mem_filter.mp hr
    obtain rfl := List.inj_on_of_nodup_map s.jobs.nodup hr hmem (hrid.trans hid.symm)
    exact hback hrback

theorem JobChange.most {o : TurnOp} {s s' : Store} {row row' : JobRow}
    (h : JobChange o s s' row row') :
    row'.maxAttempts = row.maxAttempts + if o.givesBack row then 1 else 0 := by
  cases h with
  | released _ _ _ hmost => exact hmost
  | kept _ _ hmost _ hnone => rw [hmost, hnone]; rfl
  | taken _ _ _ _ _ hmost _ hnone => rw [hmost, hnone]; rfl
  | bound _ _ _ hmost _ _ hnone => rw [hmost, hnone]; rfl
  | ended _ _ hmost _ _ hnone => rw [hmost, hnone]; rfl
  | revoked hop _ hmost =>
    obtain ⟨now, g, rfl, -⟩ := hop
    rw [hmost]
    rfl

/-- The attempts handed out are counted on the rows, and so are those given back. -/
structure World.Counted (w : World) : Prop where
  handed : ∀ id row, w.store.jobs.get? id = some row →
    w.handed.countP (·.1 = id) ≤ row.attempts ∧ ∀ x ∈ w.handed, x.1 = id → x.2 ≤ row.attempts
  returned : ∀ id row, w.store.jobs.get? id = some row →
    row.maxAttempts = 3 + w.returned.count id
  known : ∀ id, w.store.jobs.get? id = none → (∀ x ∈ w.handed, x.1 ≠ id) ∧ id ∉ w.returned
  increasing : w.handed.Pairwise fun x y => x.1 = y.1 → y.2 < x.2

theorem Counted.start (db : Db) : (World.start db).Counted where
  handed _ _ h := by cases h
  returned _ _ h := by cases h
  known _ _ := by simp [World.start]
  increasing := .nil

/-- The attempts a step adds to those handed out. -/
theorem World.Step.handed {w w' : World} {e : Event} (h : w.Step e w') :
    w'.handed = w.handed ∨ ∃ job row row', HandsOut w.store w'.store job row row' ∧
      w'.handed = (job.id, row'.attempts) :: w.handed := by
  cases h with
  | turn o =>
    cases hjob : (o.exec w.store).2 with
    | none => exact .inl (by simp [World.after, hjob])
    | some job =>
      obtain ⟨row, row', hout⟩ := TurnOp.handsOut hjob
      refine .inr ⟨job, row, row', hout, ?_⟩
      simp [World.after, hjob, hout.attempt]
  | work => exact .inl rfl

theorem World.Step.returned {w w' : World} {e : Event} (h : w.Step e w') {id : Nat}
    {row row' : JobRow} (hrow : w.store.jobs.get? id = some row)
    (hrow' : w'.store.jobs.get? id = some row') :
    row'.maxAttempts + w.returned.count id = row.maxAttempts + w'.returned.count id := by
  cases h with
  | turn o =>
    obtain ⟨new, hnew, hchange⟩ := (o.sound w.store).changes.old id row hrow
    obtain rfl := Option.some.inj (hrow'.symm.trans hnew)
    have hmost := hchange.most
    have hcount := count_returns (o := o) hrow
    simp only [World.after, List.count_append, hcount]
    omega
  | work =>
    obtain rfl := Option.some.inj (hrow'.symm.trans hrow)
    rfl

theorem World.Step.known {w w' : World} {e : Event} (h : w.Step e w') {id : Nat}
    (hnone : w.store.jobs.get? id = none) (hid : id ∉ w.returned) : id ∉ w'.returned := by
  cases h with
  | turn o =>
    simp only [World.after, List.mem_append, not_or]
    refine ⟨fun hin => ?_, hid⟩
    obtain ⟨r, hr, rfl⟩ := List.mem_map.mp hin
    rw [Table.mem_rows.mp (List.mem_filter.mp hr).1] at hnone
    cases hnone
  | work => exact hid

theorem counted_step {w w' : World} {e : Event} (hc : w.Counted) (h : w.Step e w') :
    w'.Counted := by
  have hpresent : ∀ id, w'.store.jobs.get? id = none → w.store.jobs.get? id = none := by
    intro id hnone
    cases hrow : w.store.jobs.get? id with
    | none => rfl
    | some row =>
      obtain ⟨row', hrow', -⟩ := h.old hrow
      rw [hnone] at hrow'
      cases hrow'
  refine ⟨fun id row' hrow' => ?_, fun id row' hrow' => ?_, fun id hnone => ?_, ?_⟩
  · have hbefore : w.handed.countP (·.1 = id) ≤ row'.attempts ∧
        ∀ x ∈ w.handed, x.1 = id → x.2 ≤ row'.attempts := by
      cases hrow : w.store.jobs.get? id with
      | none =>
        have hno := (hc.known id hrow).1
        refine ⟨?_, fun x hx hid => absurd hid (hno x hx)⟩
        rw [List.countP_eq_zero.mpr fun x hx => by simpa using hno x hx]
        exact Nat.zero_le _
      | some row =>
        obtain ⟨new, hnew, hfollows⟩ := h.old hrow
        obtain rfl := Option.some.inj (hrow'.symm.trans hnew)
        obtain ⟨h1, h2⟩ := hc.handed id row hrow
        have := hfollows.attempts
        exact ⟨by omega, fun x hx hid => Nat.le_trans (h2 x hx hid) this⟩
    obtain hsame | ⟨job, row, new, hout, hmore⟩ := h.handed
    · rw [hsame]
      exact hbefore
    · rw [hmore]
      by_cases hid : job.id = id
      · subst hid
        obtain rfl := Option.some.inj (hrow'.symm.trans hout.after)
        obtain ⟨h1, -⟩ := hc.handed job.id row hout.before
        refine ⟨?_, fun x hx hxid => ?_⟩
        · rw [List.countP_cons_of_pos (by simp), hout.attempts]
          exact Nat.succ_le_succ h1
        · obtain rfl | hx := List.mem_cons.mp hx
          · exact Nat.le_refl _
          · exact hbefore.2 x hx hxid
      · rw [List.countP_cons_of_neg (by simpa using hid)]
        refine ⟨hbefore.1, fun x hx hxid => ?_⟩
        obtain rfl | hx := List.mem_cons.mp hx
        · exact absurd hxid hid
        · exact hbefore.2 x hx hxid
  · cases hrow : w.store.jobs.get? id with
    | none =>
      rw [(h.new hrow hrow').most, List.count_eq_zero_of_not_mem (h.known hrow (hc.known id hrow).2)]
    | some row =>
      have := h.returned hrow hrow'
      have := hc.returned id row hrow
      omega
  · have hbefore := hpresent id hnone
    obtain ⟨h1, h2⟩ := hc.known id hbefore
    refine ⟨?_, h.known hbefore h2⟩
    obtain hsame | ⟨job, row, new, hout, hmore⟩ := h.handed
    · rw [hsame]
      exact h1
    · rw [hmore]
      intro x hx hid
      obtain rfl | hx := List.mem_cons.mp hx
      · have hid : job.id = id := hid
        rw [← hid, hout.after] at hnone
        cases hnone
      · exact h1 x hx hid
  · obtain hsame | ⟨job, row, new, hout, hmore⟩ := h.handed
    · rw [hsame]
      exact hc.increasing
    · rw [hmore, List.pairwise_cons]
      refine ⟨fun y hy hid => ?_, hc.increasing⟩
      have hy2 := (hc.handed job.id row hout.before).2 y hy hid.symm
      rw [hout.attempts]
      exact Nat.lt_succ_of_le hy2

/-- No event leaves a job open that has used up its attempts. -/
def World.WithinBudget (w : World) (e : Event) : Prop :=
  ∀ o, e = .turn o → ∀ row ∈ w.store.jobs.rows, o.overruns w.store row = false

/-- A job has an attempt left where it waits for one. -/
def World.Bounded (w : World) : Prop :=
  ∀ id row, w.store.jobs.get? id = some row → row.attempts ≤ row.maxAttempts ∧
    (row.status = .pending → row.attempts < row.maxAttempts)

theorem bounded_step {w w' : World} {e : Event} (hb : w.Bounded) (h : w.Step e w')
    (hw : w.WithinBudget e) : w'.Bounded := by
  intro id row' hrow'
  cases hrow : w.store.jobs.get? id with
  | none =>
    obtain ⟨hattempts, hmost, -, -⟩ := h.new hrow hrow'
    omega
  | some row =>
    obtain ⟨new, hnew, hfollows⟩ := h.old hrow
    obtain rfl := Option.some.inj (hrow'.symm.trans hnew)
    obtain ⟨hle, hlt⟩ := hb id row hrow
    cases hfollows with
    | work _ _ heq =>
      rw [heq]
      exact ⟨hle, hlt⟩
    | turn o he hchange =>
      have hover := hw o he row (Table.get?_mem hrow)
      cases hchange with
      | kept hstatus hattempts hmost =>
        rw [hstatus, hattempts, hmost]
        exact ⟨hle, hlt⟩
      | taken hopen hwithin _ hstatus hattempts hmost =>
        have hleft : row.attempts < row.maxAttempts := hopen.elim hlt (hwithin hover)
        refine ⟨by omega, fun hpending => ?_⟩
        rw [hstatus] at hpending
        cases hpending
      | released _ _ hattempts hmost hwithin =>
        cases hback : o.givesBack row with
        | true =>
          rw [hback, if_pos rfl] at hmost
          omega
        | false =>
          have := hwithin hover hback
          rw [hback, if_neg (by simp)] at hmost
          omega
      | bound _ hstatus hattempts hmost =>
        refine ⟨by omega, fun hpending => ?_⟩
        rw [hstatus] at hpending
        cases hpending
      | ended hopen hattempts hmost _ hstatus =>
        refine ⟨?_, fun hpending => ?_⟩
        · obtain hsame | ⟨hmore, hwithin⟩ := hattempts
          · omega
          · have hleft : row.attempts < row.maxAttempts := hopen.elim hlt (hwithin hover)
            omega
        · rw [hpending] at hstatus
          simp at hstatus
      | revoked _ hattempts hmost _ hstatus =>
        refine ⟨by omega, fun hpending => ?_⟩
        rw [hstatus] at hpending
        cases hpending

/-! Runs. -/

/-- At most one attempt owns a job, and no earlier one does. -/
structure World.OneOwner (w : World) : Prop where
  unique : ∀ row ∈ w.store.jobs.rows, ∀ a b, ownsProcessingAttempt row a = true →
    ownsProcessingAttempt row b = true → a = b
  latest : ∀ row ∈ w.store.jobs.rows, ∀ a, ownsProcessingAttempt row a = true →
    ∀ x ∈ w.handed, x.1 = row.id → x.2 ≤ a
  increasing : w.handed.Pairwise fun x y => x.1 = y.1 → y.2 < x.2

theorem World.Counted.oneOwner {w : World} (h : w.Counted) : w.OneOwner := by
  have howner : ∀ row : JobRow, ∀ a, ownsProcessingAttempt row a = true → row.attempts = a := by
    intro row a ha
    simp only [ownsProcessingAttempt, Bool.and_eq_true, decide_eq_true_eq] at ha
    exact ha.2
  refine ⟨fun row _ a b ha hb => ?_, fun row hrow a ha x hx hid => ?_, h.increasing⟩
  · rw [← howner row a ha, ← howner row b hb]
  · rw [← howner row a ha]
    exact (h.handed row.id row (Table.mem_rows.mp hrow)).2 x hx hid

/-- Every bound job stays bound to its Work. -/
def World.KeepsLinks (w w' : World) : Prop :=
  ∀ id row workId, w.store.jobs.get? id = some row → row.workId = some workId →
    ∃ row', w'.store.jobs.get? id = some row' ∧ row'.workId = some workId

theorem keepsLinks_step {w w' : World} {e : Event} (h : w.Step e w') : w.KeepsLinks w' := by
  intro id row workId hrow hwork
  obtain ⟨row', hrow', hfollows⟩ := h.old hrow
  obtain hsame | ⟨hnone, -⟩ := hfollows.workId
  · exact ⟨row', hrow', hsame.trans hwork⟩
  · rw [hnone] at hwork
    cases hwork

theorem keepsLinks_run {w w' : World} {es : List Event} (h : Run World.Step w es w') :
    w.KeepsLinks w' := by
  induction h with
  | nil => exact fun _ row _ hrow hwork => ⟨row, hrow, hwork⟩
  | cons hstep _ ih =>
    intro id row workId hrow hwork
    obtain ⟨row', hrow', hwork'⟩ := keepsLinks_step hstep id row workId hrow hwork
    exact ih id row' workId hrow' hwork'

/-- A job that the event closes has no Work that goes on, unless its target is revoked. -/
def World.EndsTogether (w : World) (e : Event) (w' : World) : Prop :=
  ∀ id row row', w.store.jobs.get? id = some row → w'.store.jobs.get? id = some row' →
    row'.Closed → ¬ row.Closed → WorkEnded w'.store.db row'.workId ∨
      ∃ now g, e = .turn (.revokeTarget now g) ∧ g.matches row = true

theorem endsTogether_step {w w' : World} {e : Event} (h : w.Step e w') : w.EndsTogether e w' := by
  intro id row row' hrow hrow' hclosed hopen
  obtain ⟨new, hnew, hfollows⟩ := h.old hrow
  obtain rfl := Option.some.inj (hrow'.symm.trans hnew)
  exact hfollows.ends hclosed hopen

/-- The Work of a job that is handed out is queued or running. -/
def World.HandsOutRunnable (w w' : World) : Prop :=
  ∀ id attempt, w'.handed = (id, attempt) :: w.handed →
    ∃ row, w'.store.jobs.get? id = some row ∧ ownsProcessingAttempt row attempt = true ∧
      WorkRunnable w'.store.db row.workId

theorem handsOutRunnable_step {w w' : World} {e : Event} (h : w.Step e w') :
    w.HandsOutRunnable w' := by
  intro id attempt hmore
  obtain hsame | ⟨job, row, row', hout, hhanded⟩ := h.handed
  · have := congrArg List.length (hsame.symm.trans hmore)
    simp at this
  · obtain ⟨rfl, rfl⟩ := Prod.mk.inj (List.cons.inj (hmore.symm.trans hhanded)).1
    exact ⟨row', hout.after, by simp [ownsProcessingAttempt, hout.status], hout.runnable⟩

/-- One attempt owns a job at a time; a job keeps its Work and ends with it; a job whose Work is
paused is not handed out; and no job is handed out more often than its budget says. The Work of a
closed job goes on only where it is resumed, or where the target was revoked. -/
theorem turns_end_with_works {db : Db} {es : List Event} {w : World}
    (h : Run World.Step (World.start db) es w) :
    w.OneOwner ∧
    (∀ fs w', Run World.Step w fs w' → w.KeepsLinks w') ∧
    (∀ e w', w.Step e w' → w.EndsTogether e w' ∧ w.HandsOutRunnable w') ∧
    (Run (fun v e v' => v.Step e v' ∧ v.Orderly e) (World.start db) es w → w.ClosedTogether) ∧
    (Run (fun v e v' => v.Step e v' ∧ v.WithinBudget e) (World.start db) es w →
      ∀ id, w.handed.countP (·.1 = id) ≤ 3 + w.returned.count id) := by
  have hcounted : w.Counted :=
    h.invariant (fun _ _ _ hc hstep => counted_step hc hstep) (Counted.start db)
  refine ⟨hcounted.oneOwner, fun fs w' hrun => keepsLinks_run hrun,
    fun e w' hstep => ⟨endsTogether_step hstep, handsOutRunnable_step hstep⟩, fun horderly => ?_,
    fun hwithin id => ?_⟩
  · have hstart : (World.start db).Linked ∧ (World.start db).ClosedTogether :=
      ⟨fun _ _ _ hrow => (by cases hrow), fun _ _ hrow => (by cases hrow)⟩
    have hstep (v : World) (e : Event) (v' : World) (hv : v.Linked ∧ v.ClosedTogether)
        (hs : v.Step e v' ∧ v.Orderly e) : v'.Linked ∧ v'.ClosedTogether :=
      ⟨linked_step hv.1 hs.1, closedTogether_step hv.1 hv.2 hs.1 hs.2⟩
    exact (horderly.invariant hstep hstart).2
  · have hstart : (World.start db).Bounded := fun _ _ hrow => by cases hrow
    have hbounded : w.Bounded :=
      hwithin.invariant (fun _ _ _ hb hs => bounded_step hb hs.1 hs.2) hstart
    cases hrow : w.store.jobs.get? id with
    | none =>
      rw [List.countP_eq_zero.mpr fun x hx => by simpa using (hcounted.known id hrow).1 x hx]
      exact Nat.zero_le _
    | some row =>
      have h1 := (hcounted.handed id row hrow).1
      have h2 := hcounted.returned id row hrow
      have h3 := (hbounded id row hrow).1
      omega

/-! Runs that can be played. -/

def Event.exec (w : World) : Event → World
  | .turn o => w.after o
  | .work none => w
  | .work (some (op, now)) =>
    match op.exec w.store.db now with
    | .ok db => { w with store := { w.store with db := db } }
    | .error _ => w

theorem Event.exec_step (w : World) (e : Event) : w.Step e (e.exec w) := by
  match e with
  | .turn o => exact .turn w o
  | .work none => exact .work (.other (.refl _))
  | .work (some (op, now)) =>
    unfold Event.exec
    dsimp only
    split
    · next db hexec => exact .work (.commit hexec)
    · next err hexec => exact .work (.rollback hexec)

def World.play (w : World) (es : List Event) : World :=
  es.foldl (fun w e => e.exec w) w

theorem World.run_play (w : World) (es : List Event) : Run World.Step w es (w.play es) := by
  induction es generalizing w with
  | nil => exact .nil w
  | cons e es ih => exact .cons (e.exec_step w) (ih _)

def turnDb : Db :=
  { conversations := ⟨[{ id := "c", generation := 1 }], List.nodup_singleton "c"⟩
    scopes := ⟨[⟨"c", 1, 0, 1, some "o", 300⟩], List.nodup_singleton "c"⟩ }

def turnScene : Scene where
  authorityLive _ := true
  unreadable _ := none
  startsAfterEventId _ := 0
  lastEventId _ := 7
  events := [⟨7, some "c", "external_event", "external", "system", some "github", none⟩]

def turnRequest : TurnRequest where
  id := 1
  sourcePersonId := some "u"
  sourceEventId := 7
  pluginId := "github"
  targetType := .private_
  targetId := "10"
  botUserId := "20"
  agentIntent := "review"
  canonicalTargetPersonId := some "u"
  canonicalTargetSpaceId := none
  canonicalConversationId := some "c"
  canonicalPresenceId := some "s"
  resumedWait := false

def turnWorkId : String := "0b7c2f5e-8c1d-4e7a-9a51-3f6d2c9be014"

def turnAdmission : TurnAdmission where
  jobId := 1
  attempt := 1
  generation := 1
  sourceKey := "invocation:1"
  source := .obj [("owner", .str "plugin_background"), ("plugin_id", .str "github"),
    ("trigger_event_id", .int 7), ("conversation_id", .str "c"), ("generation", .int 1)]
  goal := "review"

/-- A turn is published, claimed and admitted. -/
def admittedTurn : List Event :=
  [.turn (.publish 0 turnRequest),
    .turn (.claimTurn ((World.start turnDb).play [.turn (.publish 0 turnRequest)]).store turnScene
      1 1 900),
    .turn (.admitBackgroundTurnWork turnScene 2 ⟨"c", 1, 0, 1, "o", none⟩ turnAdmission turnWorkId)]

theorem turns_end_with_works_admitted :
    ((World.start turnDb).play admittedTurn).OneOwner ∧
      ((World.start turnDb).play admittedTurn).handed = [(1, 1)] :=
  ⟨(turns_end_with_works (World.run_play (World.start turnDb) admittedTurn)).1, by decide +kernel⟩

/-- The Work fails, the job is closed with it, and the operator resumes the Work. -/
def resumedTurn : List Event :=
  admittedTurn ++
    [.work (some (.manageWork turnWorkId 1 .fail none, 3)),
      .turn (.reconcileTerminalTurns ((World.start turnDb).play (admittedTurn ++
        [.work (some (.manageWork turnWorkId 1 .fail none, 3))])).store 4 none),
      .work (some (.manageWork turnWorkId 2 .resume none, 5))]

theorem resumed_work_of_failed_turn :
    Run World.Step (World.start turnDb) resumedTurn ((World.start turnDb).play resumedTurn) ∧
    ((((World.start turnDb).play resumedTurn).store.jobs.get? 1).map fun row =>
      (row.status, row.workId)) = some (.failed, some turnWorkId) ∧
    ((World.start turnDb).play resumedTurn).store.db.stateOf turnWorkId = some .queued :=
  ⟨World.run_play _ _, by decide +kernel, by decide +kernel⟩

end Yuki.BackgroundTurns

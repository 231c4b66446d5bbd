import Yuki.Social.Sends

/-! A send is claimed once, and a preparation that is tried again returns the
row it finds. -/

namespace Yuki.Social

variable {sha256 : String → String} {w w' : Sends} {as : List SendAction}

/-! Claims. -/

/-- A claim of the row that returned true. -/
def claims (id : String) : SendAction → Bool
  | .claim c _ result => result && decide (c.operationId = id)
  | _ => false

/-- The send boundary of the row is passed. -/
def Sends.Passed (id : String) (w : Sends) : Prop :=
  ∃ r ∈ w.db.operations.rows, r.id = id ∧ r.status ≠ .prepared

/-- The row has no local route. -/
def Sends.Remote (id : String) (w : Sends) : Prop :=
  ∀ r ∈ w.db.operations.rows, r.id = id → r.isLocal = false

theorem Later.passed {id : String} (h : Later w w') (hp : w.Passed id) : w'.Passed id := by
  obtain ⟨r, hr, hid, hs⟩ := hp
  obtain ⟨r', hr', hf⟩ := h r hr
  exact ⟨r', hr', (plan_fields hf.plan).1.trans hid, fun he => hs (hf.prepared he)⟩

theorem Later.remote {id : String} (h : Later w w') (hr : w'.Remote id) : w.Remote id := by
  intro r hr' hid
  obtain ⟨r', hmem, hf⟩ := h r hr'
  obtain ⟨hid', -, -, -, -, -, -, hprepared⟩ := plan_fields hf.plan
  have hlocal := hr r' hmem (hid'.trans hid)
  rw [SocialOperation.isLocal, SocialOperation.localLedger] at hlocal ⊢
  rwa [← hprepared]

/-- A claim that returns true finds its row as it must be, and leaves it executing. -/
theorem claim_true {t : OperationTable} {c : ClaimRequest} {now : Int}
    (h : (claim t c now).2 = true) :
    ∃ r ∈ t.rows, c.selects r = true ∧ r.claimed c.presenceId now ∈ (claim t c now).1.rows := by
  unfold claim at h ⊢
  split at h
  · next hplan =>
    rw [if_pos hplan]
    have hone : t.count c.selects = 1 := of_decide_eq_true h
    obtain ⟨r, hr⟩ := List.exists_mem_of_length_pos (l := t.rows.filter c.selects)
      (by unfold OperationTable.count at hone; omega)
    obtain ⟨hr, hsel⟩ := List.mem_filter.mp hr
    exact ⟨r, hr, hsel, List.mem_map.mpr ⟨r, hr, if_pos hsel⟩⟩
  · cases h

theorem selects_cases {c : ClaimRequest} {r : SocialOperation} (h : c.selects r = true) :
    r.id = c.operationId ∧ (r.status = .prepared ∨ r.isLocal = true) := by
  unfold ClaimRequest.selects at h
  simp only [Bool.and_eq_true, decide_eq_true_eq] at h
  obtain ⟨⟨hid, hstatus⟩, -⟩ := h
  refine ⟨hid, ?_⟩
  split at hstatus
  · simp only [Bool.and_eq_true] at hstatus
    exact Or.inr hstatus.2
  · exact Or.inl (of_decide_eq_true hstatus)

/-- A run whose row is remote at the end is one of remote states. -/
theorem run_remote {id : String} (hroot : Identity.Rooted w.db.persons)
    (h : Run (SendStep sha256) w as w') (hr : w'.Remote id) :
    Run (fun w a w' => SendStep sha256 w a w' ∧ Identity.Rooted w.db.persons ∧ w.Remote id)
      w as w' := by
  induction h with
  | nil w => exact .nil w
  | @cons w u v a as hs hrun ih =>
    obtain ⟨hadded, -, hu⟩ := step_cases sha256 hroot hs
    have hlater := (run_later sha256 hu hrun).1
    have hru := hlater.remote hr
    exact .cons ⟨hs, hroot, (hadded.later sha256).remote hru⟩ (ih hu hr)

/-- For each row whose prepared route is not the local ledger, one claim at most returns true. -/
theorem claim_once {id : String} (hroot : Identity.Rooted w.db.persons)
    (h : Run (SendStep sha256) w as w') (hr : w'.Remote id) : as.countP (claims id) ≤ 1 := by
  have hstable : ∀ u a v, (SendStep sha256 u a v ∧ Identity.Rooted u.db.persons ∧ u.Remote id) →
      u.Passed id → v.Passed id := fun u a v hs hd =>
    ((step_cases sha256 hs.2.1 hs.1).1.later sha256).passed hd
  have hevent : ∀ u a v, (SendStep sha256 u a v ∧ Identity.Rooted u.db.persons ∧ u.Remote id) →
      claims id a = true → ¬ u.Passed id ∧ v.Passed id := by
    rintro u a v ⟨hstep, -, hremote⟩ he
    cases a with
    | claim c now result =>
      simp only [claims, Bool.and_eq_true, decide_eq_true_eq] at he
      obtain ⟨hresult, rfl⟩ := he
      obtain ⟨hcomputed, rfl⟩ := hstep
      obtain ⟨r, hr, hsel, hafter⟩ := claim_true (hcomputed.symm.trans hresult)
      obtain ⟨hid, hcase⟩ := selects_cases hsel
      have hprepared : r.status = .prepared :=
        hcase.resolve_right (by rw [hremote r hr hid]; nofun)
      refine ⟨fun hd => ?_, r.claimed c.presenceId now, hafter, hid, nofun⟩
      obtain ⟨r', hr', hid', hs'⟩ := hd
      obtain rfl := List.inj_on_of_nodup_map u.db.operations.table.nodup hr' hr
        (hid'.trans hid.symm)
      exact hs' hprepared
    | _ => cases he
  exact (run_remote hroot h hr).once hstable hevent

/-! Preparations that find their row. -/

/-- The request is one that the row was prepared for: its target is of the same family, or the
same space, and its plan and payload hash to those of the row. -/
structure PrepareRequest.Retries (sha256 : String → String) (q : PrepareRequest)
    (db : SocialStore) (row : SocialOperation) : Prop where
  mem : row ∈ db.operations.rows
  call : row.call = q.call sha256
  target : sameTarget db.persons row q.target = true
  hash : q.matchesRow sha256 row row.target = true

/-- So for a sequence, with every part. -/
structure SequenceRequest.Retries (sha256 : String → String) (q : SequenceRequest)
    (db : SocialStore) (row : SocialOperation) : Prop where
  mem : row ∈ db.operations.rows
  call : row.call = q.call sha256
  target : sameTarget db.persons row q.target = true
  hash : q.matchesRow sha256 row row.target = true
  parts : q.matchesChildren sha256 (q.children sha256 db) row.target = true

variable {db db' : SocialStore} {row row' : SocialOperation} {target : SocialTarget}

theorem sameTarget_later (hg : Grown db db') (hf : row.Follows row')
    (h : sameTarget db.persons row target = true) : sameTarget db'.persons row' target = true := by
  obtain ⟨-, -, -, htarget, -⟩ := plan_fields hf.plan
  unfold sameTarget at h ⊢
  rw [htarget]
  split_ifs at h ⊢ with h₁ h₂ h₃
  · rfl
  · exact hg.same _ _ h

/-- The stored target of the same family is known, or is the requested one. -/
theorem targetExists_or (h : sameTarget db.persons row target = true) :
    row.target = target ∨ PrepareRequest.targetExists db row.target = true := by
  unfold sameTarget at h
  split_ifs at h with h₁ h₂ h₃
  · left
    obtain ⟨kind, id⟩ := target
    exact SocialTarget.ext (not_not.mp h₁) h₂
  · right
    have hkind : row.target.kind = .person := (not_not.mp h₁).trans (not_not.mp h₃)
    rw [Identity.samePersonId_iff] at h
    obtain ⟨person, hp⟩ := Table.get?_isSome.mpr h.1
    rw [PrepareRequest.targetExists, hkind, hp]
    rfl

theorem targetExists_grown (hg : Grown db db')
    (h : PrepareRequest.targetExists db target = true) :
    PrepareRequest.targetExists db' target = true := by
  unfold PrepareRequest.targetExists at h ⊢
  cases hk : target.kind with
  | person =>
    rw [hk] at h
    obtain ⟨person, hp⟩ := Option.isSome_iff_exists.mp h
    obtain ⟨person', hp'⟩ := Table.get?_isSome.mpr
      (hg.persons target.id (Table.get?_isSome.mp ⟨person, hp⟩))
    exact Option.isSome_iff_exists.mpr ⟨person', hp'⟩
  | space =>
    rw [hk] at h
    exact decide_eq_true (hg.spaces _ (of_decide_eq_true h))

theorem PrepareRequest.Retries.later {q : PrepareRequest} (h : q.Retries sha256 w.db row)
    (hl : Later w w') (hg : Grown w.db w'.db) :
    ∃ row', row.Follows row' ∧ q.Retries sha256 w'.db row' := by
  obtain ⟨row', hmem, hf⟩ := hl row h.mem
  obtain ⟨-, hcall, -, htarget, -, hhash, hparts, -⟩ := plan_fields hf.plan
  refine ⟨row', hf, hmem, hcall.trans h.call, sameTarget_later hg hf h.target, ?_⟩
  have hm := h.hash
  unfold PrepareRequest.matchesRow at hm ⊢
  rwa [hparts, hhash, htarget]

theorem SequenceRequest.mem_children {q : SequenceRequest} {row : SocialOperation} :
    row ∈ q.children sha256 db ↔ row ∈ db.operations.rows ∧
      row.sourceTurnId = (q.call sha256).1 ∧ row.action = .sendMessage ∧
      (sequencePrefix sha256 (q.call sha256).2).toLower.toList.isPrefixOf
        row.toolCallId.toLower.toList = true := by
  unfold SequenceRequest.children
  rw [List.mem_filter, Bool.and_eq_true, decide_eq_true_eq, and_assoc]

/-- The child of a key is the one row of its call. -/
theorem SequenceRequest.find_child {q : SequenceRequest} {key : String} :
    (q.children sha256 db).find? (fun row => decide (row.toolCallId = key)) = some row ↔
      row ∈ q.children sha256 db ∧ row.toolCallId = key := by
  constructor
  · intro h
    exact ⟨List.mem_of_find?_eq_some h, by simpa using List.find?_some h⟩
  · rintro ⟨hrow, rfl⟩
    obtain ⟨s, hs⟩ := Option.isSome_iff_exists.mp (List.find?_isSome
      (p := fun s => decide (s.toolCallId = row.toolCallId)).mpr ⟨row, hrow, by simp⟩)
    have hkey : s.toolCallId = row.toolCallId := by simpa using List.find?_some hs
    obtain ⟨hsmem, hssource, -⟩ := mem_children.mp (List.mem_of_find?_eq_some hs)
    obtain ⟨hmem, hsource, -⟩ := mem_children.mp hrow
    rw [hs, db.operations.unique s hsmem row hmem
      (Prod.ext (hssource.trans hsource.symm) hkey)]

theorem SequenceRequest.Retries.later {q : SequenceRequest} (h : q.Retries sha256 w.db row)
    (hl : Later w w') (hg : Grown w.db w'.db) :
    ∃ row', row.Follows row' ∧ q.Retries sha256 w'.db row' := by
  obtain ⟨row', hmem, hf⟩ := hl row h.mem
  obtain ⟨-, hcall, haction, htarget, hconversation, hhash, hparts, -⟩ := plan_fields hf.plan
  refine ⟨row', hf, hmem, hcall.trans h.call, sameTarget_later hg hf h.target, ?_, ?_⟩
  · have hm := h.hash
    unfold SequenceRequest.matchesRow at hm ⊢
    rwa [hconversation, haction, hhash, hparts, htarget]
  · have hm := h.parts
    unfold SequenceRequest.matchesChildren at hm ⊢
    rw [List.all_eq_true] at hm ⊢
    intro part hpart
    obtain ⟨child, hfind, hdigest⟩ := (Option.any_eq_true _ _).mp (hm part hpart)
    obtain ⟨hchild, hkey⟩ := SequenceRequest.find_child.mp hfind
    obtain ⟨hcmem, hsource, hsend, hprefix⟩ := SequenceRequest.mem_children.mp hchild
    obtain ⟨child', hcmem', hcf⟩ := hl child hcmem
    obtain ⟨-, hccall, hcaction, -, -, hchash, -⟩ := plan_fields hcf.plan
    obtain ⟨hcsource, hckey⟩ := Prod.mk.inj hccall
    refine (Option.any_eq_true _ _).mpr ⟨child', SequenceRequest.find_child.mpr
      ⟨SequenceRequest.mem_children.mpr ⟨hcmem', hcsource.trans hsource, hcaction.trans hsend, ?_⟩,
        hckey.trans hkey⟩, ?_⟩
    · rw [hckey]
      exact hprefix
    · rw [hchash, htarget]
      exact hdigest

/-! Their sessions. -/

/-- A retried preparation is before its reader, or before its writer with the target it asked for
or the one it read. -/
def Phase.Retrying {ρ : Type} (asked stored : SocialTarget) : Phase SocialTarget ρ → Prop
  | .reading => True
  | .writing target => target = asked ∨ target = stored
  | _ => False

/-- The sessions it takes at most. -/
def Phase.sessionsLeft {ρ : Type} (stored : SocialTarget) : Phase SocialTarget ρ → Nat
  | .reading => 2
  | .writing target => if target = stored then 1 else 3
  | _ => 0

/-- It goes on, or it has returned an answer, or it was refused. -/
def Phase.Served {ρ : Type} (going : Prop) (answer : ρ → Prop) (refusal : SocialError → Prop) :
    Phase SocialTarget ρ → Prop
  | .reading | .writing _ => going
  | .returned r => answer r
  | .raised e => refusal e

theorem PrepareRequest.Retries.find {q : PrepareRequest} (h : q.Retries sha256 db row) :
    db.operations.find? (q.call sha256) = some row :=
  OperationTable.find?_eq_some.mpr ⟨h.mem, h.call⟩

theorem SequenceRequest.Retries.find {q : SequenceRequest} (h : q.Retries sha256 db row) :
    db.operations.find? (q.call sha256) = some row :=
  OperationTable.find?_eq_some.mpr ⟨h.mem, h.call⟩

theorem PrepareRequest.Retries.read {q : PrepareRequest} (h : q.Retries sha256 db row) :
    q.read sha256 db = .ok (if q.workEffect then .inl row.target else .inr (receipt row)) := by
  unfold PrepareRequest.read
  rw [h.find]
  exact bind_eq_ok.mpr ⟨(), require_eq_ok.mpr h.target,
    bind_eq_ok.mpr ⟨(), require_eq_ok.mpr h.hash, rfl⟩⟩

theorem addNew_of_find {t : OperationTable} {row new : SocialOperation}
    (h : t.find? new.call = some row) : t.addNew new = .ok t := by
  unfold OperationTable.addNew
  rw [h]
  rfl

/-- The writer of a retried `prepare`: an unknown target is refused, another physical target
starts over, and the stored row is bound and returned. -/
theorem PrepareRequest.Retries.write {q : PrepareRequest} (h : q.Retries sha256 db row)
    (target : SocialTarget) (id : String) (bound : Bool) (now : Int) :
    q.write sha256 db target id bound now =
      if PrepareRequest.targetExists db target = false then .error .targetNotFound
      else if row.target ≠ target then .ok (db, none)
      else if q.workEffect = true ∧ bound = false then .error .effectConflict
      else .ok (db, some (receipt row)) := by
  have hadd : db.operations.addNew (q.row sha256 target id now) = .ok db.operations :=
    addNew_of_find h.find
  unfold PrepareRequest.write
  by_cases hexists : PrepareRequest.targetExists db target = true
  · have hknown : ¬ PrepareRequest.targetExists db target = false := by
      rw [hexists]
      nofun
    rw [require_of hexists, ok_bind, hadd, ok_bind, h.find, expect, ok_bind, require_of h.target,
      ok_bind, if_neg hknown]
    by_cases htarget : row.target = target
    · subst htarget
      rw [if_neg (not_not.mpr rfl), if_neg (not_not.mpr rfl), require_of h.hash, ok_bind]
      by_cases hbind : q.workEffect = true → bound = true
      · have hno : ¬ (q.workEffect = true ∧ bound = false) := by
          rintro ⟨hw, hb⟩
          rw [hbind hw] at hb
          cases hb
        rw [require_of hbind, ok_bind, if_neg hno]
        rfl
      · have hyes : q.workEffect = true ∧ bound = false := by simpa using hbind
        rw [require_of_not hbind, error_bind, if_pos hyes]
    · rw [if_pos htarget, if_pos htarget]
      rfl
  · rw [require_of_not hexists, error_bind, if_pos (Bool.eq_false_iff.mpr hexists)]

/-- The writer of a retried `prepare_sequence`. -/
theorem SequenceRequest.Retries.write {q : SequenceRequest} (h : q.Retries sha256 db row)
    (target : SocialTarget) (ids : Nat → String) (bound : Bool) (now : Int) :
    ∃ dispatch, q.write sha256 db target ids bound now =
      if row.target ≠ target then .ok (db, none)
      else if q.workEffect = true ∧ bound = false then .error .effectConflict
      else .ok (db, some (receipt row, dispatch)) := by
  refine ⟨decide (row.status = .prepared) &&
    (q.children sha256 db).all fun child => decide (child.status = .prepared), ?_⟩
  unfold SequenceRequest.write
  rw [h.find]
  simp only [require_of h.target, ok_bind]
  by_cases htarget : row.target = target
  · subst htarget
    rw [if_neg (not_not.mpr rfl), if_neg (not_not.mpr rfl), require_of h.hash, ok_bind,
      require_of h.parts, ok_bind]
    by_cases hbind : q.workEffect = true → bound = true
    · have hno : ¬ (q.workEffect = true ∧ bound = false) := by
        rintro ⟨hw, hb⟩
        rw [hbind hw] at hb
        cases hb
      rw [require_of hbind, ok_bind, if_neg hno]
      rfl
    · have hyes : q.workEffect = true ∧ bound = false := by simpa using hbind
      rw [require_of_not hbind, error_bind, if_pos hyes]
  · rw [if_pos htarget, if_pos htarget]
    rfl

theorem Phase.Retrying.cases {ρ : Type} {asked stored : SocialTarget} {phase : Phase SocialTarget ρ}
    (h : phase.Retrying asked stored) :
    phase = .reading ∨ ∃ target, phase = .writing target ∧ (target = asked ∨ target = stored) := by
  cases phase with
  | reading => exact Or.inl rfl
  | writing target => exact Or.inr ⟨target, rfl, h⟩
  | _ => exact h.elim

/-- One session of a retried `prepare`: it goes on with fewer sessions left, returns the stored
row, or is refused. -/
theorem PrepareRequest.session {q : PrepareRequest} {phase : Phase SocialTarget SocialReceipt}
    {call' : Call} (h : q.Retries sha256 db row) (hp : phase.Retrying q.target row.target)
    (hs : (Call.prepare q phase).read sha256 db = some call' ∨ ∃ ids bound now db',
      (Call.prepare q phase).write sha256 db ids bound now = some (db', call')) :
    ∃ phase', call' = .prepare q phase' ∧
      (phase'.sessionsLeft row.target < phase.sessionsLeft row.target) ∧
      phase'.Served (phase'.Retrying q.target row.target) (fun r => r = receipt row) fun e =>
        (e = .effectConflict ∧ q.workEffect = true) ∨
        (e = .targetNotFound ∧ PrepareRequest.targetExists db q.target = false) := by
  rcases hp.cases with rfl | ⟨target, rfl, htarget⟩
  · rcases hs with hs | ⟨ids, bound, now, db', hs⟩
    · simp only [Call.read, h.read, Option.some.injEq] at hs
      subst hs
      cases q.workEffect with
      | true => exact ⟨_, rfl, by simp [Phase.sessionsLeft], Or.inr rfl⟩
      | false => exact ⟨_, rfl, by simp [Phase.sessionsLeft], rfl⟩
    · cases hs
  · rcases hs with hs | ⟨ids, bound, now, db', hs⟩
    · cases hs
    · have hleft : 0 < (Phase.writing target : Phase SocialTarget SocialReceipt).sessionsLeft
          row.target := by
        show 0 < if target = row.target then 1 else 3
        split <;> omega
      simp only [Call.write, h.write, Option.some.injEq] at hs
      by_cases hknown : PrepareRequest.targetExists db target = false
      · simp only [hknown, if_true, Prod.mk.injEq] at hs
        obtain ⟨-, rfl⟩ := hs
        refine ⟨_, rfl, hleft, Or.inr ⟨rfl, ?_⟩⟩
        rcases htarget with rfl | rfl
        · exact hknown
        · rcases targetExists_or h.target with he | he
          · exact he ▸ hknown
          · rw [hknown] at he
            cases he
      · rw [if_neg hknown] at hs
        by_cases hmoved : row.target ≠ target
        · simp only [if_pos hmoved, Prod.mk.injEq] at hs
          obtain ⟨-, rfl⟩ := hs
          exact ⟨_, rfl, by simp [Phase.sessionsLeft, Ne.symm hmoved], trivial⟩
        · rw [if_neg hmoved] at hs
          by_cases hbind : q.workEffect = true ∧ bound = false
          · simp only [if_pos hbind, Prod.mk.injEq] at hs
            obtain ⟨-, rfl⟩ := hs
            exact ⟨_, rfl, hleft, Or.inl ⟨rfl, hbind.1⟩⟩
          · simp only [if_neg hbind, Prod.mk.injEq] at hs
            obtain ⟨-, rfl⟩ := hs
            exact ⟨_, rfl, hleft, rfl⟩

/-- One session of a retried `prepare_sequence`. -/
theorem SequenceRequest.session {q : SequenceRequest}
    {phase : Phase SocialTarget (SocialReceipt × Bool)} {call' : Call}
    (h : q.Retries sha256 db row) (hp : phase.Retrying q.target row.target)
    (hs : (Call.sequence q phase).read sha256 db = some call' ∨ ∃ ids bound now db',
      (Call.sequence q phase).write sha256 db ids bound now = some (db', call')) :
    ∃ phase', call' = .sequence q phase' ∧
      (phase'.sessionsLeft row.target < phase.sessionsLeft row.target) ∧
      phase'.Served (phase'.Retrying q.target row.target) (fun r => r.1 = receipt row) fun e =>
        e = .effectConflict ∧ q.workEffect = true := by
  rcases hp.cases with rfl | ⟨target, rfl, htarget⟩
  · rcases hs with hs | ⟨ids, bound, now, db', hs⟩
    · have hread : q.read sha256 db = row.target := by
        unfold SequenceRequest.read
        rw [h.find]
      simp only [Call.read, hread, Option.some.injEq] at hs
      subst hs
      exact ⟨_, rfl, by simp [Phase.sessionsLeft], Or.inr rfl⟩
    · cases hs
  · rcases hs with hs | ⟨ids, bound, now, db', hs⟩
    · cases hs
    · have hleft : 0 < (Phase.writing target :
          Phase SocialTarget (SocialReceipt × Bool)).sessionsLeft row.target := by
        show 0 < if target = row.target then 1 else 3
        split <;> omega
      obtain ⟨dispatch, hw⟩ := h.write target ids bound now
      simp only [Call.write, hw, Option.some.injEq] at hs
      by_cases hmoved : row.target ≠ target
      · simp only [if_pos hmoved, Prod.mk.injEq] at hs
        obtain ⟨-, rfl⟩ := hs
        exact ⟨_, rfl, by simp [Phase.sessionsLeft, Ne.symm hmoved], trivial⟩
      · rw [if_neg hmoved] at hs
        by_cases hbind : q.workEffect = true ∧ bound = false
        · simp only [if_pos hbind, Prod.mk.injEq] at hs
          obtain ⟨-, rfl⟩ := hs
          exact ⟨_, rfl, hleft, rfl, hbind.1⟩
        · simp only [if_neg hbind, Prod.mk.injEq] at hs
          obtain ⟨-, rfl⟩ := hs
          exact ⟨_, rfl, hleft, rfl⟩

/-! Runs of one call. -/

/-- A call whose own sessions each take one of those it has left, until it is done, takes no
more than these. -/
theorem run_sessions {i : Nat} {going : Sends → Call → Nat → Prop} {done : Call → Prop}
    (hother : ∀ w a w' c n, SendStep sha256 w a w' → going w c n → going w' c n)
    (hown : ∀ w a w' c c' n, SendStep sha256 w a w' → going w c n →
      (c.read sha256 w.db = some c' ∨
        ∃ ids bound now db, c.write sha256 w.db ids bound now = some (db, c')) →
      (∃ m, m < n ∧ going w' c' m) ∨ (0 < n ∧ done c'))
    (hdone : ∀ db c, done c → c.read sha256 db = none ∧
      ∀ ids bound now, c.write sha256 db ids bound now = none)
    (hr : Run (SendStep sha256) w as w') {c : Call} {n : Nat} (hi : w.calls[i]? = some c)
    (hc : going w c n ∨ n = 0 ∧ done c) :
    as.countP (sessions i) ≤ n ∧
      ∃ c', w'.calls[i]? = some c' ∧ ((∃ m, going w' c' m) ∨ done c') := by
  induction hr generalizing c n with
  | nil w => exact ⟨Nat.zero_le n, c, hi, hc.imp (fun h => ⟨n, h⟩) And.right⟩
  | @cons w u v a as hs _ ih =>
    rcases step_call sha256 hs hi with ⟨hown', hi'⟩ | ⟨hown', c', hi', hsession⟩
    · rw [List.countP_cons_of_neg (by rw [hown']; nofun)]
      exact ih hi' (hc.imp_left (hother _ _ _ _ _ hs))
    · rw [List.countP_cons_of_pos hown']
      rcases hc with hc | ⟨-, hc⟩
      · rcases hown _ _ _ _ _ _ hs hc hsession with ⟨m, hm, hgoing⟩ | ⟨hn, hd⟩
        · obtain ⟨hcount, hend⟩ := ih hi' (Or.inl hgoing)
          exact ⟨by omega, hend⟩
        · obtain ⟨hcount, hend⟩ := ih (n := 0) hi' (Or.inr ⟨rfl, hd⟩)
          exact ⟨by omega, hend⟩
      · obtain ⟨hread, hwrite⟩ := hdone w.db c hc
        rcases hsession with h | ⟨ids, bound, now, db, h⟩
        · rw [hread] at h
          cases h
        · rw [hwrite] at h
          cases h

theorem Grown.trans {db₁ db₂ db₃ : SocialStore} (h : Grown db₁ db₂) (h' : Grown db₂ db₃) :
    Grown db₁ db₃ :=
  ⟨fun id hid => h'.persons id (h.persons id hid), fun a b hab => h'.same a b (h.same a b hab),
    fun id hid => h'.spaces id (h.spaces id hid)⟩

/-- What is common to the two preparations: a constructor of calls, when a stored row is the one
that is retried, what returns and what is refused. -/
structure Preparation (sha256 : String → String) (ρ : Type) where
  toCall : Phase SocialTarget ρ → Call
  asked : SocialTarget
  retries : SocialStore → SocialOperation → Prop
  answer : SocialOperation → ρ → Prop
  refusal : SocialStore → SocialError → Prop
  later : ∀ {w w' row}, retries w.db row → Later w w' → Grown w.db w'.db →
    ∃ row', row.Follows row' ∧ retries w'.db row'
  session : ∀ {db row phase call'}, retries db row → phase.Retrying asked row.target →
    ((toCall phase).read sha256 db = some call' ∨ ∃ ids bound now db',
      (toCall phase).write sha256 db ids bound now = some (db', call')) →
    ∃ phase', call' = toCall phase' ∧
      (phase'.sessionsLeft row.target < phase.sessionsLeft row.target) ∧
      phase'.Served (phase'.Retrying asked row.target) (answer row) (refusal db)
  ended_read : ∀ {phase db}, phase.pending = false → (toCall phase).read sha256 db = none
  ended_write : ∀ {phase db ids bound now}, phase.pending = false →
    (toCall phase).write sha256 db ids bound now = none
  refusal_grown : ∀ {db db' e}, Grown db db' → refusal db' e → refusal db e

/-- A retried preparation takes three sessions at most, and ends with the stored row or a
refusal. -/
theorem Preparation.retried {ρ : Type} (P : Preparation sha256 ρ) {phase : Phase SocialTarget ρ}
    {i : Nat} (hroot : Identity.Rooted w.db.persons) (hr : Run (SendStep sha256) w as w')
    (hi : w.calls[i]? = some (P.toCall phase)) (hp : phase.Retrying P.asked row.target)
    (h : P.retries w.db row) :
    as.countP (sessions i) ≤ phase.sessionsLeft row.target ∧
      ∃ phase', w'.calls[i]? = some (P.toCall phase') ∧
        phase'.Served True (fun r => ∃ row', row.Follows row' ∧ P.answer row' r)
          (P.refusal w.db) := by
  let going (u : Sends) (c : Call) (n : Nat) : Prop := ∃ phase row', c = P.toCall phase ∧
    phase.Retrying P.asked row.target ∧ n = phase.sessionsLeft row.target ∧
    row.Follows row' ∧ P.retries u.db row' ∧ Grown w.db u.db ∧ Identity.Rooted u.db.persons
  let done (c : Call) : Prop := ∃ phase, c = P.toCall phase ∧ phase.pending = false ∧
    phase.Served True (fun r => ∃ row', row.Follows row' ∧ P.answer row' r) (P.refusal w.db)
  have hstep : ∀ {u a u' row'}, SendStep sha256 u a u' → row.Follows row' → P.retries u.db row' →
      Grown w.db u.db → Identity.Rooted u.db.persons → ∃ row'', row.Follows row'' ∧
        P.retries u'.db row'' ∧ Grown w.db u'.db ∧ Identity.Rooted u'.db.persons := by
    intro u a u' row' hs hf hq hg hu
    obtain ⟨hadded, hgrown, hu'⟩ := step_cases sha256 hu hs
    obtain ⟨row'', hf', hq'⟩ := P.later hq (hadded.later sha256) hgrown
    exact ⟨row'', hf.trans hf', hq', hg.trans hgrown, hu'⟩
  have hother : ∀ u a u' c n, SendStep sha256 u a u' → going u c n → going u' c n := by
    rintro u a u' c n hs ⟨phase, row', hc, hp, hn, hf, hq, hg, hu⟩
    obtain ⟨row'', hf', hq', hg', hu'⟩ := hstep hs hf hq hg hu
    exact ⟨phase, row'', hc, hp, hn, hf', hq', hg', hu'⟩
  have hown : ∀ u a u' c c' n, SendStep sha256 u a u' → going u c n →
      (c.read sha256 u.db = some c' ∨
        ∃ ids bound now db, c.write sha256 u.db ids bound now = some (db, c')) →
      (∃ m, m < n ∧ going u' c' m) ∨ (0 < n ∧ done c') := by
    rintro u a u' c c' n hs ⟨phase, row', rfl, hp, rfl, hf, hq, hg, hu⟩ hsession
    have htarget : row'.target = row.target := (plan_fields hf.plan).2.2.2.1
    rw [← htarget] at hp
    obtain ⟨phase', rfl, hleft, hserved⟩ := P.session hq hp hsession
    rw [htarget] at hleft hserved
    obtain ⟨row'', hf', hq', hg', hu'⟩ := hstep hs hf hq hg hu
    cases phase' with
    | reading => exact Or.inl ⟨_, hleft, _, row'', rfl, hserved, rfl, hf', hq', hg', hu'⟩
    | writing t => exact Or.inl ⟨_, hleft, _, row'', rfl, hserved, rfl, hf', hq', hg', hu'⟩
    | returned r => exact Or.inr ⟨hleft, _, rfl, rfl, row', hf, hserved⟩
    | raised e => exact Or.inr ⟨hleft, _, rfl, rfl, P.refusal_grown hg hserved⟩
  have hdone : ∀ db c, done c → c.read sha256 db = none ∧
      ∀ ids bound now, c.write sha256 db ids bound now = none := by
    rintro db c ⟨phase, rfl, hpending, -⟩
    exact ⟨P.ended_read hpending, fun ids bound now => P.ended_write hpending⟩
  obtain ⟨hcount, c', hi', hend⟩ := run_sessions hother hown hdone hr hi
    (Or.inl ⟨phase, row, rfl, hp, rfl, .refl row, h, .of_eq rfl rfl, hroot⟩)
  refine ⟨hcount, ?_⟩
  rcases hend with ⟨m, phase', row', rfl, hp', -⟩ | ⟨phase', rfl, -, hserved⟩
  · refine ⟨phase', hi', ?_⟩
    cases phase' with
    | reading | writing => trivial
    | returned | raised => exact hp'.elim
  · exact ⟨phase', hi', hserved⟩

/-- `prepare`, refused where a Work does not bind the receipt or the target is unknown. -/
def PrepareRequest.preparation (sha256 : String → String) (q : PrepareRequest) :
    Preparation sha256 SocialReceipt where
  toCall := .prepare q
  asked := q.target
  retries := q.Retries sha256
  answer row r := r = receipt row
  refusal db e := (e = .effectConflict ∧ q.workEffect = true) ∨
    (e = .targetNotFound ∧ PrepareRequest.targetExists db q.target = false)
  later := PrepareRequest.Retries.later
  session := PrepareRequest.session
  ended_read := by rintro ⟨⟩ _ h <;> first | rfl | cases h
  ended_write := by rintro ⟨⟩ _ _ _ _ h <;> first | rfl | cases h
  refusal_grown := by
    rintro db db' e hg (h | ⟨he, h⟩)
    · exact Or.inl h
    · refine Or.inr ⟨he, Bool.eq_false_iff.mpr fun hknown => ?_⟩
      rw [targetExists_grown hg hknown] at h
      cases h

/-- `prepare_sequence`, refused where a Work does not bind the receipt. -/
def SequenceRequest.preparation (sha256 : String → String) (q : SequenceRequest) :
    Preparation sha256 (SocialReceipt × Bool) where
  toCall := .sequence q
  asked := q.target
  retries := q.Retries sha256
  answer row r := r.1 = receipt row
  refusal _ e := e = .effectConflict ∧ q.workEffect = true
  later := SequenceRequest.Retries.later
  session := SequenceRequest.session
  ended_read := by rintro ⟨⟩ _ h <;> first | rfl | cases h
  ended_write := by rintro ⟨⟩ _ _ _ _ h <;> first | rfl | cases h
  refusal_grown _ h := h

/-- A call returns a receipt of a stored row only where it retries that row. -/
theorem PrepareRequest.returned_only {q : PrepareRequest} {phase : Phase SocialTarget SocialReceipt}
    {r : SocialReceipt} (hrow : row ∈ db.operations.rows) (hcall : row.call = q.call sha256)
    (hs : (Call.prepare q phase).read sha256 db = some (.prepare q (.returned r)) ∨
      ∃ ids bound now db', (Call.prepare q phase).write sha256 db ids bound now =
        some (db', .prepare q (.returned r))) :
    q.Retries sha256 db row ∧ r = receipt row := by
  have hfind : db.operations.find? (q.call sha256) = some row :=
    OperationTable.find?_eq_some.mpr ⟨hrow, hcall⟩
  rcases hs with hs | ⟨ids, bound, now, db', hs⟩
  · cases phase with
    | reading =>
      simp only [Call.read, PrepareRequest.read, hfind, Option.some.injEq, Call.prepare.injEq,
        true_and] at hs
      split at hs
      · cases hs
      · next r' hread =>
        obtain rfl := Phase.returned.inj hs
        simp only [bind_eq_ok, require_eq_ok, pure_eq_ok] at hread
        obtain ⟨-, htarget, -, hhash, hr⟩ := hread
        refine ⟨⟨hrow, hcall, htarget, hhash⟩, ?_⟩
        split at hr
        · cases hr
        · exact (Sum.inr.inj hr).symm
      · cases hs
    | _ => cases hs
  · cases phase with
    | writing target =>
      simp only [Call.write, Option.some.injEq] at hs
      split at hs
      · next hw =>
        obtain ⟨-, hs⟩ := Prod.mk.inj hs
        obtain rfl := Phase.returned.inj (Call.prepare.inj hs).2
        have hadd : db.operations.addNew (q.row sha256 target (ids 0) now) = .ok db.operations :=
          addNew_of_find hfind
        unfold PrepareRequest.write at hw
        rw [hadd] at hw
        simp only [bind_eq_ok, require_eq_ok, ok_bind, hfind, expect] at hw
        obtain ⟨-, -, -, htarget, hw⟩ := hw
        by_cases hmoved : row.target ≠ target
        · rw [if_pos hmoved] at hw
          cases hw
        · rw [if_neg hmoved] at hw
          simp only [bind_eq_ok, require_eq_ok, pure_eq_ok, Prod.mk.injEq, Option.some.injEq] at hw
          obtain ⟨-, hhash, -, -, -, rfl⟩ := hw
          rw [← not_not.mp hmoved] at hhash
          exact ⟨⟨hrow, hcall, htarget, hhash⟩, rfl⟩
      · next hw => cases hs
      · cases hs
    | _ => cases hs

theorem SequenceRequest.returned_only {q : SequenceRequest}
    {phase : Phase SocialTarget (SocialReceipt × Bool)} {r : SocialReceipt × Bool}
    (hrow : row ∈ db.operations.rows) (hcall : row.call = q.call sha256)
    (hs : (Call.sequence q phase).read sha256 db = some (.sequence q (.returned r)) ∨
      ∃ ids bound now db', (Call.sequence q phase).write sha256 db ids bound now =
        some (db', .sequence q (.returned r))) :
    q.Retries sha256 db row ∧ r.1 = receipt row := by
  have hfind : db.operations.find? (q.call sha256) = some row :=
    OperationTable.find?_eq_some.mpr ⟨hrow, hcall⟩
  rcases hs with hs | ⟨ids, bound, now, db', hs⟩
  · cases phase <;> cases hs
  · cases phase with
    | writing target =>
      simp only [Call.write, Option.some.injEq] at hs
      split at hs
      · next hw =>
        obtain ⟨-, hs⟩ := Prod.mk.inj hs
        obtain rfl := Phase.returned.inj (Call.sequence.inj hs).2
        unfold SequenceRequest.write at hw
        rw [hfind] at hw
        simp only [bind_eq_ok, require_eq_ok] at hw
        obtain ⟨-, htarget, hw⟩ := hw
        by_cases hmoved : row.target ≠ target
        · rw [if_pos hmoved] at hw
          cases hw
        · rw [if_neg hmoved] at hw
          simp only [bind_eq_ok, require_eq_ok, pure_eq_ok, Prod.mk.injEq, Option.some.injEq] at hw
          obtain ⟨-, hhash, -, hparts, -, -, -, rfl⟩ := hw
          rw [← not_not.mp hmoved] at hhash hparts
          exact ⟨⟨hrow, hcall, htarget, hhash, hparts⟩, rfl⟩
      · next hw => cases hs
      · cases hs
    | _ => cases hs

/-- What holds between any two states of a run: rows keep what they were prepared with and their
statuses only advance; a send that is not local is claimed once; a sequence comes with all its
parts; and a preparation tried again ends with the stored row. -/
structure SafeSends (sha256 : String → String) (w : Sends) (as : List SendAction) (w' : Sends) :
    Prop where
  rows : ∀ r ∈ w.db.operations.rows, ∃ r' ∈ w'.db.operations.rows, r.Follows r'
  calls : ∀ r ∈ w.db.operations.rows, ∀ r' ∈ w'.db.operations.rows, r'.call = r.call →
    r'.plan = r.plan ∧ (isFinal r.status = true → r'.status = r.status)
  once : ∀ r ∈ w'.db.operations.rows, r.isLocal = false → as.countP (claims r.id) ≤ 1
  added : ∀ a w'', SendStep sha256 w' a w'' → Added sha256 w' w''
  prepare : ∀ i q phase row, w.calls[i]? = some (.prepare q phase) →
    phase.Retrying q.target row.target → q.Retries sha256 w.db row →
    as.countP (sessions i) ≤ 3 ∧ ∃ phase', w'.calls[i]? = some (.prepare q phase') ∧
      phase'.Served True (fun r => ∃ row', row.Follows row' ∧ r = receipt row') fun e =>
        (e = .effectConflict ∧ q.workEffect = true) ∨
        (e = .targetNotFound ∧ PrepareRequest.targetExists w.db q.target = false)
  sequence : ∀ i q phase row, w.calls[i]? = some (.sequence q phase) →
    phase.Retrying q.target row.target → q.Retries sha256 w.db row →
    as.countP (sessions i) ≤ 3 ∧ ∃ phase', w'.calls[i]? = some (.sequence q phase') ∧
      phase'.Served True (fun r => ∃ row', row.Follows row' ∧ r.1 = receipt row') fun e =>
        e = .effectConflict ∧ q.workEffect = true
  refused : ∀ a w'' i row, SendStep sha256 w' a w'' → sessions i a = true →
    row ∈ w'.db.operations.rows →
    (∀ q phase r, w'.calls[i]? = some (.prepare q phase) → row.call = q.call sha256 →
      w''.calls[i]? = some (.prepare q (.returned r)) → q.Retries sha256 w'.db row) ∧
    ∀ q phase r, w'.calls[i]? = some (.sequence q phase) → row.call = q.call sha256 →
      w''.calls[i]? = some (.sequence q (.returned r)) → q.Retries sha256 w'.db row

def onePerson : SocialStore where
  operations := .empty
  persons := Table.empty.insert { id := "p" }
  spaces := []
  intents := []
  events := []

/-- The digests that the sample requests need. -/
def sampleSha256 (text : String) : String :=
  if "\x7b\"action\":\"send_message\"".toList.isPrefixOf text.toList then
    "2a1ae1f2a1bdeab85ce7f8244847ed48cd03868dc20548fa75f5f4ab632a0bf7"
  else "a4cfb87b1716a915f21a46964c34d193d61ca795b9a12e3af0586fa5c5317b8c"

def sampleRequest (action : SocialAction) (plannedParts : Option Int) : PrepareRequest where
  sourceTurnId := "s"
  toolCallId := "t"
  conversationId := "c"
  action := action
  target := ⟨.person, "p"⟩
  payload := .obj []
  plannedParts := plannedParts

def sampleRow (action : SocialAction) (plannedParts : Option Int) : SocialOperation :=
  (sampleRequest action plannedParts).row sampleSha256 ⟨.person, "p"⟩ "o" 0

def storedRow (action : SocialAction) (plannedParts : Option Int) : OperationTable where
  table := Table.empty.insert (sampleRow action plannedParts)
  unique := by
    intro r hr r' hr' _
    rw [List.mem_singleton.mp hr, List.mem_singleton.mp hr']

def storedMessage : Sends where
  db := { onePerson with operations := storedRow .sendMessage none }
  calls := [.prepare (sampleRequest .sendMessage none) .reading]

def twoClaims : List SendAction :=
  [.claim ⟨"o", "x", none, none, false⟩ 1 true, .claim ⟨"o", "y", none, none, false⟩ 2 false,
    .read 0]

end Yuki.Social

import Yuki.Identity.Merging
import Yuki.Social.Operations

/-! Callers whose sessions interleave, and what any session leaves of the rows. -/

namespace Yuki.Social

/-- A call before, between and after its two sessions. -/
inductive Phase (ω ρ : Type)
  | reading
  | writing (o : ω)
  | returned (r : ρ)
  | raised (e : SocialError)

def Phase.pending {ω ρ : Type} : Phase ω ρ → Bool
  | .reading | .writing _ => true
  | .returned _ | .raised _ => false

inductive Call
  | prepare (q : PrepareRequest) (phase : Phase SocialTarget SocialReceipt)
  | sequence (q : SequenceRequest) (phase : Phase SocialTarget (SocialReceipt × Bool))
  | recover (phase : Phase (List Interrupted) Nat)

variable (sha256 : String → String)

/-- A call as it enters its loop; `prepare` first checks its arguments. -/
def Call.fresh : Call → Prop
  | .prepare q .reading => q.valid = true
  | .prepare q (.raised e) => q.valid = false ∧ e = .invalidOperation
  | .sequence _ .reading | .recover .reading => True
  | _ => False

/-- The reader of a call. -/
def Call.read (db : SocialStore) : Call → Option Call
  | .prepare q .reading =>
    some (.prepare q
      (match q.read sha256 db with
      | .ok (.inl target) => .writing target
      | .ok (.inr r) => .returned r
      | .error e => .raised e))
  | .sequence q .reading => some (.sequence q (.writing (q.read sha256 db)))
  | .recover .reading => some (.recover (.writing (readInterrupted sha256 db)))
  | _ => none

/-- The writer of a call; an exception rolls back, and a moved target starts over. -/
def Call.write (db : SocialStore) (ids : Nat → String) (bound : Bool) (now : Int) :
    Call → Option (SocialStore × Call)
  | .prepare q (.writing target) =>
    some (match q.write sha256 db target (ids 0) bound now with
      | .ok (db', some r) => (db', .prepare q (.returned r))
      | .ok (db', none) => (db', .prepare q .reading)
      | .error e => (db, .prepare q (.raised e)))
  | .sequence q (.writing target) =>
    some (match q.write sha256 db target ids bound now with
      | .ok (db', some r) => (db', .sequence q (.returned r))
      | .ok (db', none) => (db', .sequence q .reading)
      | .error e => (db, .sequence q (.raised e)))
  | .recover (.writing interrupted) =>
    let recovered := writeRecovery db.operations interrupted now
    some ({ db with operations := recovered.1 }, .recover (.returned recovered.2))
  | _ => none

structure Sends where
  db : SocialStore
  calls : List Call := []

inductive SendAction
  | start (call : Call)
  | read (i : Nat)
  | write (i : Nat) (ids : Nat → String) (bound : Bool) (now : Int)
  | claim (c : ClaimRequest) (now : Int) (result : Bool)
  | stop (operationId errorCategory : String) (now : Int)
  | finish (f : FinishRequest) (now : Int)
  | merge (sourceId targetId : String) (now : Int)
  | other (db : SocialStore)

/-- Writes elsewhere: new persons and spaces, any intents and events, and the reference to an
event that is deleted. -/
structure OtherWrite (db db' : SocialStore) : Prop where
  operations : ∃ p, db'.operations = db.operations.change p fun row => { row with eventId := none }
  persons : ∀ id ∈ db.persons.rows.map (·.id), id ∈ db'.persons.rows.map (·.id)
  parents : Identity.parentOf db'.persons = Identity.parentOf db.persons
  spaces : ∀ id ∈ db.spaces, id ∈ db'.spaces

/-- One session of a caller, one merge of two roots, or a write elsewhere. -/
def SendStep (w : Sends) (a : SendAction) (w' : Sends) : Prop :=
  match a with
  | .start call => call.fresh ∧ w' = { w with calls := w.calls ++ [call] }
  | .read i => ∃ call call', w.calls[i]? = some call ∧ call.read sha256 w.db = some call' ∧
      w' = { w with calls := w.calls.set i call' }
  | .write i ids bound now => ∃ call db call', w.calls[i]? = some call ∧
      call.write sha256 w.db ids bound now = some (db, call') ∧
      w' = { db := db, calls := w.calls.set i call' }
  | .claim c now result => result = (claim w.db.operations c now).2 ∧
      w' = { w with db := { w.db with operations := (claim w.db.operations c now).1 } }
  | .stop operationId errorCategory now =>
      w' = { w with
        db := { w.db with
          operations := stopSequence w.db.operations operationId errorCategory now } }
  | .finish f now =>
      w' = { w with db := ((finish w.db f now).toOption.map (·.1)).getD w.db }
  | .merge sourceId targetId now => sourceId ∈ w.db.persons.rows.map (·.id) ∧
      targetId ∈ w.db.persons.rows.map (·.id) ∧ sourceId ≠ targetId ∧
      Identity.parentOf w.db.persons sourceId = none ∧
      Identity.parentOf w.db.persons targetId = none ∧
      w' = { w with
        db := { w.db with
          persons := Identity.joinFamilies w.db.persons sourceId targetId now } }
  | .other db => OtherWrite w.db db ∧ w' = { w with db := db }

/-! Rows. -/

/-- What a row was prepared with. -/
def SocialOperation.plan (row : SocialOperation) : SocialOperation :=
  { row with
    presenceId := none
    status := .prepared
    platformReference := none
    errorCategory := none
    updatedAt := 0
    eventId := none
    originalEventId := none
    originalConversationId := none }

/-- One move of a status. -/
inductive Advance (action : SocialAction) : OperationStatus → OperationStatus → Prop
  | claim : Advance action .prepared .executing
  | settle {s : OperationStatus} (h : isFinal s = true) : Advance action .executing s
  | stop (h : action = .sendMessageSequence) : Advance action .prepared .failed

/-- A later version of a row. -/
structure SocialOperation.Follows (r r' : SocialOperation) : Prop where
  plan : r'.plan = r.plan
  status : Relation.ReflTransGen (Advance r.action) r.status r'.status

variable {r r' r'' : SocialOperation} {t t' t'' : OperationTable}

theorem plan_fields (h : r'.plan = r.plan) :
    r'.id = r.id ∧ r'.call = r.call ∧ r'.action = r.action ∧ r'.target = r.target ∧
      r'.sourceConversationId = r.sourceConversationId ∧ r'.payloadHash = r.payloadHash ∧
      r'.plannedParts = r.plannedParts ∧ r'.preparedJson = r.preparedJson := by
  cases r
  cases r'
  simp only [SocialOperation.plan, SocialOperation.mk.injEq] at h
  simp_all [SocialOperation.call]

theorem SocialOperation.Follows.refl (r : SocialOperation) : r.Follows r :=
  ⟨rfl, .refl⟩

theorem SocialOperation.Follows.trans (h : r.Follows r') (h' : r'.Follows r'') : r.Follows r'' := by
  refine ⟨h'.plan.trans h.plan, h.status.trans ?_⟩
  have haction := (plan_fields h.plan).2.2.1
  rw [← haction]
  exact h'.status

theorem SocialOperation.Follows.of_advance (hplan : r'.plan = r.plan)
    (h : Advance r.action r.status r'.status) : r.Follows r' :=
  ⟨hplan, .single h⟩

theorem SocialOperation.Follows.of_eq (hplan : r'.plan = r.plan) (h : r'.status = r.status) :
    r.Follows r' :=
  ⟨hplan, h ▸ .refl⟩

/-- No status leads back to `prepared`, and none leads on from a final one. -/
theorem Advance.ne_prepared {action : SocialAction} {s s' : OperationStatus}
    (h : Advance action s s') : s' ≠ .prepared := by
  cases h with
  | claim => nofun
  | settle hf =>
    rintro rfl
    cases hf
  | stop => nofun

theorem Advance.not_final {action : SocialAction} {s s' : OperationStatus}
    (h : Advance action s s') : isFinal s = false := by
  cases h <;> rfl

theorem SocialOperation.Follows.prepared (h : r.Follows r') (hs : r'.status = .prepared) :
    r.status = .prepared := by
  rcases h.status.cases_tail with he | ⟨s, -, hadv⟩
  · exact he ▸ hs
  · exact absurd hs hadv.ne_prepared

theorem SocialOperation.Follows.final (h : r.Follows r') (hf : isFinal r.status = true) :
    r'.status = r.status := by
  rcases h.status.cases_head with he | ⟨s, hadv, -⟩
  · exact he.symm
  · rw [hadv.not_final] at hf
    cases hf

/-- The rows of a table, changed one by one. -/
structure Changed (t t' : OperationTable) : Prop where
  rows : ∃ f : SocialOperation → SocialOperation, t'.rows = t.rows.map f ∧
    ∀ r ∈ t.rows, r.Follows (f r)

theorem Changed.refl (t : OperationTable) : Changed t t :=
  ⟨⟨id, (List.map_id _).symm, fun r _ => .refl r⟩⟩

theorem Changed.trans (h : Changed t t') (h' : Changed t' t'') : Changed t t'' := by
  obtain ⟨f, hf, hff⟩ := h.rows
  obtain ⟨g, hg, hgg⟩ := h'.rows
  refine ⟨⟨g ∘ f, by rw [hg, hf, List.map_map], fun r hr => ?_⟩⟩
  have hmem : f r ∈ t'.rows := by
    rw [hf]
    exact List.mem_map_of_mem hr
  exact (hff r hr).trans (hgg _ hmem)

theorem Changed.of_rows (p : SocialOperation → Bool) (f : SocialOperation → SocialOperation)
    (hrows : t'.rows = t.rows.map fun r => if p r then f r else r)
    (h : ∀ r ∈ t.rows, p r = true → r.Follows (f r)) : Changed t t' := by
  refine ⟨⟨_, hrows, fun r hr => ?_⟩⟩
  by_cases hp : p r = true
  · simpa only [if_pos hp] using h r hr hp
  · simpa only [if_neg hp] using SocialOperation.Follows.refl r

theorem changed_claim (t : OperationTable) (c : ClaimRequest) (now : Int) :
    Changed t (claim t c now).1 := by
  unfold claim
  split
  · refine .of_rows c.selects (·.claimed c.presenceId now) rfl fun r _ hp => ?_
    unfold ClaimRequest.selects at hp
    simp only [Bool.and_eq_true] at hp
    obtain ⟨⟨-, hstatus⟩, -⟩ := hp
    split at hstatus
    · simp only [Bool.and_eq_true, decide_eq_true_eq] at hstatus
      exact .of_eq rfl hstatus.1.1.symm
    · refine .of_advance rfl ?_
      rw [of_decide_eq_true hstatus]
      exact .claim
  · exact .refl t

theorem changed_stopSequence (t : OperationTable) (operationId errorCategory : String) (now : Int) :
    Changed t (stopSequence t operationId errorCategory now) := by
  refine .of_rows _ (·.failed errorCategory now) rfl fun r _ hp => .of_advance rfl ?_
  obtain ⟨-, haction, hstatus⟩ := of_decide_eq_true hp
  rw [hstatus]
  exact .stop haction

theorem changed_finish {db db' : SocialStore} {f : FinishRequest} {now : Int} {r : SocialReceipt}
    (h : finish db f now = .ok (db', r)) :
    Changed db.operations db'.operations ∧ db'.persons = db.persons ∧ db'.spaces = db.spaces := by
  unfold finish at h
  simp only [bind_eq_ok, require_eq_ok, pure_eq_ok, Prod.mk.injEq] at h
  obtain ⟨-, hfinal, -, -, -, -, -, -, -, -, rfl, -⟩ := h
  refine ⟨.of_rows _ (·.settled f _ now) rfl fun r _ hp => .of_advance rfl ?_, rfl, rfl⟩
  obtain ⟨-, hstatus⟩ := of_decide_eq_true hp
  rw [hstatus]
  exact .settle hfinal

theorem changed_stopInterrupted (now : Int) (recovered : OperationTable × Nat) (i : Interrupted) :
    Changed recovered.1 (stopInterrupted now recovered i).1 := by
  refine .of_rows (i.selects recovered.1) (·.failed "process_interrupted" now) rfl fun r _ hp =>
    .of_advance rfl ?_
  unfold Interrupted.selects at hp
  simp only [Bool.and_eq_true, decide_eq_true_eq] at hp
  obtain ⟨⟨-, haction, hstatus, -⟩, -⟩ := hp
  rw [hstatus]
  exact .stop haction

theorem changed_foldl (now : Int) (interrupted : List Interrupted) (recovered : OperationTable × Nat) :
    Changed recovered.1 (interrupted.foldl (stopInterrupted now) recovered).1 := by
  induction interrupted generalizing recovered with
  | nil => exact .refl _
  | cons i interrupted ih =>
    exact (changed_stopInterrupted now recovered i).trans (ih _)

theorem changed_writeRecovery (t : OperationTable) (interrupted : List Interrupted) (now : Int) :
    Changed t (writeRecovery t interrupted now).1 := by
  have habandoned : Changed t
      (t.change SocialOperation.abandoned fun row => row.uncertain now) := by
    refine .of_rows SocialOperation.abandoned (·.uncertain now) rfl fun r _ hp => .of_advance rfl ?_
    unfold SocialOperation.abandoned at hp
    simp only [Bool.and_eq_true, decide_eq_true_eq] at hp
    rw [hp.1]
    exact .settle rfl
  exact habandoned.trans (changed_foldl now interrupted
    (t.change SocialOperation.abandoned fun row => row.uncertain now,
      t.count SocialOperation.abandoned))

/-! New rows. -/

theorem OperationTable.find?_eq_some {call : String × String} {row : SocialOperation} :
    t.find? call = some row ↔ row ∈ t.rows ∧ row.call = call := by
  unfold OperationTable.find?
  constructor
  · intro h
    exact ⟨List.mem_of_find?_eq_some h, by simpa using List.find?_some h⟩
  · rintro ⟨hrow, rfl⟩
    obtain ⟨s, hs⟩ := Option.isSome_iff_exists.mp
      (List.find?_isSome (p := fun s => decide (s.call = row.call)).mpr ⟨row, hrow, by simp⟩)
    have hcall : s.call = row.call := by simpa using List.find?_some hs
    rw [hs, t.unique s (List.mem_of_find?_eq_some hs) row hrow hcall]

theorem OperationTable.add_eq_ok {row : SocialOperation} (h : t.add row = .ok t') :
    t'.rows = t.rows ++ [row] ∧ row.id ∉ t.rows.map (·.id) ∧ t.find? row.call = none := by
  unfold OperationTable.add at h
  split at h
  · cases h
  · next hfree =>
    obtain ⟨hid, hcall⟩ := not_or.mp hfree
    obtain rfl := Except.ok.inj h
    refine ⟨?_, hid, Option.not_isSome_iff_eq_none.mp hcall⟩
    exact congrArg Table.rows (dif_neg hid)

theorem foldlM_add_eq_ok {rows : List SocialOperation}
    (h : rows.foldlM OperationTable.add t = .ok t') : t'.rows = t.rows ++ rows := by
  induction rows generalizing t with
  | nil =>
    obtain rfl := pure_eq_ok.mp h
    exact (List.append_nil _).symm
  | cons row rows ih =>
    obtain ⟨t₁, h₁, h₂⟩ := bind_eq_ok.mp h
    rw [ih h₂, (OperationTable.add_eq_ok h₁).1, List.append_assoc]
    rfl

theorem addNew_eq_ok {row : SocialOperation} (h : t.addNew row = .ok t') :
    (t' = t ∧ ∃ r, t.find? row.call = some r) ∨ (t'.rows = t.rows ++ [row] ∧
      t.find? row.call = none) := by
  unfold OperationTable.addNew at h
  split at h
  · next hsome =>
    exact Or.inl ⟨(Except.ok.inj h).symm, Option.isSome_iff_exists.mp hsome⟩
  · obtain ⟨hrows, -, hnone⟩ := OperationTable.add_eq_ok h
    exact Or.inr ⟨hrows, hnone⟩

/-- What the writer of `prepare` leaves: the rows as they were, or one more. -/
theorem PrepareRequest.write_cases {q : PrepareRequest} {db db' : SocialStore}
    {target : SocialTarget} {id : String} {bound : Bool} {now : Int} {o : Option SocialReceipt}
    (h : q.write sha256 db target id bound now = .ok (db', o)) :
    (db' = db ∨ db'.operations.rows = db.operations.rows ++ [q.row sha256 target id now]) ∧
      db'.persons = db.persons ∧ db'.spaces = db.spaces := by
  unfold PrepareRequest.write at h
  obtain ⟨-, -, h⟩ := bind_eq_ok.mp h
  obtain ⟨operations, hadd, h⟩ := bind_eq_ok.mp h
  obtain ⟨row, -, h⟩ := bind_eq_ok.mp h
  obtain ⟨-, -, h⟩ := bind_eq_ok.mp h
  have hdb : db' = { db with operations := operations } := by
    split at h
    · exact (Prod.mk.inj (pure_eq_ok.mp h)).1.symm
    · obtain ⟨-, -, h⟩ := bind_eq_ok.mp h
      obtain ⟨-, -, h⟩ := bind_eq_ok.mp h
      exact (Prod.mk.inj (pure_eq_ok.mp h)).1.symm
  subst hdb
  refine ⟨?_, rfl, rfl⟩
  rcases addNew_eq_ok hadd with ⟨rfl, -⟩ | ⟨hrows, -⟩
  · exact Or.inl rfl
  · exact Or.inr hrows

/-- What the writer of `prepare_sequence` leaves: the rows as they were, or the parent and all its
children besides. -/
theorem SequenceRequest.write_cases {q : SequenceRequest} {db db' : SocialStore}
    {target : SocialTarget} {ids : Nat → String} {bound : Bool} {now : Int}
    {o : Option (SocialReceipt × Bool)}
    (h : q.write sha256 db target ids bound now = .ok (db', o)) :
    (db' = db ∨ db'.operations.rows = db.operations.rows ++ q.rows sha256 target ids now) ∧
      db'.persons = db.persons ∧ db'.spaces = db.spaces := by
  unfold SequenceRequest.write at h
  split at h
  · obtain ⟨operations, hadd, h⟩ := bind_eq_ok.mp h
    obtain ⟨-, -, h⟩ := bind_eq_ok.mp h
    obtain rfl := (Prod.mk.inj (pure_eq_ok.mp h)).1
    exact ⟨Or.inr (foldlM_add_eq_ok hadd), rfl, rfl⟩
  · obtain ⟨-, -, h⟩ := bind_eq_ok.mp h
    have hdb : db' = db := by
      split at h
      · exact (Prod.mk.inj (pure_eq_ok.mp h)).1.symm
      · simp only [bind_eq_ok, pure_eq_ok, Prod.mk.injEq] at h
        obtain ⟨-, -, -, -, -, -, rfl, -⟩ := h
        rfl
    exact ⟨Or.inl hdb, by rw [hdb], by rw [hdb]⟩

/-- Families and spaces only grow. -/
structure Grown (db db' : SocialStore) : Prop where
  persons : ∀ id ∈ db.persons.rows.map (·.id), id ∈ db'.persons.rows.map (·.id)
  same : ∀ a b, Identity.samePersonId db.persons a b = true →
    Identity.samePersonId db'.persons a b = true
  spaces : ∀ id ∈ db.spaces, id ∈ db'.spaces

theorem Grown.of_eq {db db' : SocialStore} (hp : db'.persons = db.persons)
    (hs : db'.spaces = db.spaces) : Grown db db' :=
  ⟨fun _ hid => hp ▸ hid, fun _ _ h => hp ▸ h, fun _ hid => hs ▸ hid⟩

theorem Grown.of_root {db db' : SocialStore}
    (hp : ∀ id ∈ db.persons.rows.map (·.id), id ∈ db'.persons.rows.map (·.id))
    (hs : ∀ id ∈ db.spaces, id ∈ db'.spaces)
    (hroot : ∀ a b, UnionFind.root (Identity.parentOf db.persons) a =
        UnionFind.root (Identity.parentOf db.persons) b →
      UnionFind.root (Identity.parentOf db'.persons) a =
        UnionFind.root (Identity.parentOf db'.persons) b) : Grown db db' := by
  refine ⟨hp, fun a b h => ?_, hs⟩
  rw [Identity.samePersonId_iff] at h ⊢
  exact ⟨hp a h.1, hp b h.2.1, hroot a b h.2.2⟩

/-- The rows that a session adds: none, one that `prepare` plans, or a sequence and all its
parts. -/
def Added (w w' : Sends) : Prop :=
  Changed w.db.operations w'.db.operations ∨
  (∃ (i : Nat) (q : PrepareRequest) (target : SocialTarget) (id : String) (now : Int),
    w.calls[i]? = some (.prepare q (.writing target)) ∧
    w'.db.operations.rows = w.db.operations.rows ++ [q.row sha256 target id now]) ∨
  ∃ (i : Nat) (q : SequenceRequest) (target : SocialTarget) (ids : Nat → String) (now : Int),
    w.calls[i]? = some (.sequence q (.writing target)) ∧
    w'.db.operations.rows = w.db.operations.rows ++ q.rows sha256 target ids now

variable {w w' : Sends} {a : SendAction}

theorem step_write {i : Nat} {ids : Nat → String} {bound : Bool} {now : Int}
    {call call' : Call} {db : SocialStore} (hi : w.calls[i]? = some call)
    (h : call.write sha256 w.db ids bound now = some (db, call')) :
    Added sha256 w { db := db, calls := w.calls.set i call' } ∧ db.persons = w.db.persons ∧
      db.spaces = w.db.spaces := by
  cases call with
  | prepare q phase =>
    cases phase with
    | writing target =>
      simp only [Call.write, Option.some.injEq] at h
      split at h
      · next hw =>
        obtain ⟨rfl, -⟩ := Prod.mk.inj h
        obtain ⟨hcases, hp, hs⟩ := PrepareRequest.write_cases sha256 hw
        refine ⟨?_, hp, hs⟩
        rcases hcases with rfl | hrows
        · exact Or.inl (.refl _)
        · exact Or.inr (Or.inl ⟨i, q, target, ids 0, now, hi, hrows⟩)
      · next hw =>
        obtain ⟨rfl, -⟩ := Prod.mk.inj h
        obtain ⟨hcases, hp, hs⟩ := PrepareRequest.write_cases sha256 hw
        refine ⟨?_, hp, hs⟩
        rcases hcases with rfl | hrows
        · exact Or.inl (.refl _)
        · exact Or.inr (Or.inl ⟨i, q, target, ids 0, now, hi, hrows⟩)
      · obtain ⟨rfl, -⟩ := Prod.mk.inj h
        exact ⟨Or.inl (.refl _), rfl, rfl⟩
    | _ => cases h
  | sequence q phase =>
    cases phase with
    | writing target =>
      simp only [Call.write, Option.some.injEq] at h
      split at h
      · next hw =>
        obtain ⟨rfl, -⟩ := Prod.mk.inj h
        obtain ⟨hcases, hp, hs⟩ := SequenceRequest.write_cases sha256 hw
        refine ⟨?_, hp, hs⟩
        rcases hcases with rfl | hrows
        · exact Or.inl (.refl _)
        · exact Or.inr (Or.inr ⟨i, q, target, ids, now, hi, hrows⟩)
      · next hw =>
        obtain ⟨rfl, -⟩ := Prod.mk.inj h
        obtain ⟨hcases, hp, hs⟩ := SequenceRequest.write_cases sha256 hw
        refine ⟨?_, hp, hs⟩
        rcases hcases with rfl | hrows
        · exact Or.inl (.refl _)
        · exact Or.inr (Or.inr ⟨i, q, target, ids, now, hi, hrows⟩)
      · obtain ⟨rfl, -⟩ := Prod.mk.inj h
        exact ⟨Or.inl (.refl _), rfl, rfl⟩
    | _ => cases h
  | recover phase =>
    cases phase with
    | writing interrupted =>
      simp only [Call.write, Option.some.injEq, Prod.mk.injEq] at h
      obtain ⟨rfl, -⟩ := h
      exact ⟨Or.inl (changed_writeRecovery _ _ _), rfl, rfl⟩
    | _ => cases h

/-- What any step leaves of the rows, the families and the spaces. -/
theorem step_cases (hroot : Identity.Rooted w.db.persons) (h : SendStep sha256 w a w') :
    Added sha256 w w' ∧ Grown w.db w'.db ∧ Identity.Rooted w'.db.persons := by
  cases a with
  | start call =>
    obtain ⟨-, rfl⟩ := h
    exact ⟨Or.inl (.refl _), .of_eq rfl rfl, hroot⟩
  | read i =>
    obtain ⟨call, call', -, -, rfl⟩ := h
    exact ⟨Or.inl (.refl _), .of_eq rfl rfl, hroot⟩
  | write i ids bound now =>
    obtain ⟨call, db, call', hi, hw, rfl⟩ := h
    obtain ⟨hadded, hp, hs⟩ := step_write sha256 hi hw
    exact ⟨hadded, .of_eq hp hs, hp ▸ hroot⟩
  | claim c now result =>
    obtain ⟨-, rfl⟩ := h
    exact ⟨Or.inl (changed_claim _ _ _), .of_eq rfl rfl, hroot⟩
  | stop operationId errorCategory now =>
    obtain rfl := h
    exact ⟨Or.inl (changed_stopSequence _ _ _ _), .of_eq rfl rfl, hroot⟩
  | finish f now =>
    obtain rfl := h
    cases hf : finish w.db f now with
    | error e => exact ⟨Or.inl (.refl _), .of_eq rfl rfl, hroot⟩
    | ok r =>
      obtain ⟨hchanged, hp, hs⟩ := changed_finish hf
      exact ⟨Or.inl hchanged, .of_eq hp hs, hp ▸ hroot⟩
  | merge sourceId targetId now =>
    obtain ⟨hs, ht, hne, hsnone, htnone, rfl⟩ := h
    have hids : (Identity.joinFamilies w.db.persons sourceId targetId now).rows.map (·.id) =
        w.db.persons.rows.map (·.id) := Table.keys_update _ _ _ _
    have hparents : Identity.parentOf
          (Identity.joinFamilies w.db.persons sourceId targetId now) =
        UnionFind.join (Identity.parentOf w.db.persons) sourceId targetId :=
      Identity.parentOf_joinFamilies hs
    refine ⟨Or.inl (.refl _), .of_root (fun id hid => ?_) (fun _ hid => hid) fun a b hab => ?_,
      hroot.join ht htnone hne hids hparents⟩
    · show id ∈ (Identity.joinFamilies w.db.persons sourceId targetId now).rows.map (·.id)
      rwa [hids]
    · show UnionFind.root (Identity.parentOf (Identity.joinFamilies _ _ _ _)) a =
        UnionFind.root (Identity.parentOf (Identity.joinFamilies _ _ _ _)) b
      rw [hparents, UnionFind.root_join hsnone, UnionFind.root_join hsnone, hab]
  | other db =>
    obtain ⟨⟨⟨p, hops⟩, hp, hparents, hs⟩, rfl⟩ := h
    refine ⟨Or.inl ?_, .of_root hp hs fun a b hab => ?_, ⟨?_, fun id m hm => ?_⟩⟩
    · show Changed w.db.operations db.operations
      rw [hops]
      exact .of_rows p (fun row => { row with eventId := none }) rfl fun r _ _ => .of_eq rfl rfl
    · show UnionFind.root (Identity.parentOf db.persons) a = _
      rw [hparents]
      exact hab
    · show UnionFind.Flat (Identity.parentOf db.persons)
      rw [hparents]
      exact hroot.flat
    · have hm : Identity.parentOf db.persons id = some m := hm
      rw [hparents] at hm
      exact hp m (hroot.present id m hm)

/-- Every row has its later version. -/
def Later (w w' : Sends) : Prop :=
  ∀ r ∈ w.db.operations.rows, ∃ r' ∈ w'.db.operations.rows, r.Follows r'

theorem Added.later (h : Added sha256 w w') : Later w w' := by
  intro r hr
  rcases h with hc | ⟨i, q, target, id, now, -, hrows⟩ | ⟨i, q, target, ids, now, -, hrows⟩
  · obtain ⟨f, hf, hff⟩ := hc.rows
    exact ⟨f r, by rw [hf]; exact List.mem_map_of_mem hr, hff r hr⟩
  · exact ⟨r, by rw [hrows]; exact List.mem_append_left _ hr, .refl r⟩
  · exact ⟨r, by rw [hrows]; exact List.mem_append_left _ hr, .refl r⟩

variable {as : List SendAction}

/-- What a run leaves: every row in a later version, and families that only grow. -/
theorem run_later (hroot : Identity.Rooted w.db.persons) (h : Run (SendStep sha256) w as w') :
    Later w w' ∧ Grown w.db w'.db ∧ Identity.Rooted w'.db.persons := by
  induction h with
  | nil w => exact ⟨fun r hr => ⟨r, hr, .refl r⟩, .of_eq rfl rfl, hroot⟩
  | @cons w u v a as hs _ ih =>
    obtain ⟨hadded, hgrown, hu⟩ := step_cases sha256 hroot hs
    obtain ⟨hlater, hgrown', hv⟩ := ih hu
    refine ⟨fun r hr => ?_, ⟨fun id hid => hgrown'.persons id (hgrown.persons id hid),
      fun a b hab => hgrown'.same a b (hgrown.same a b hab),
      fun id hid => hgrown'.spaces id (hgrown.spaces id hid)⟩, hv⟩
    obtain ⟨r₁, hr₁, hf₁⟩ := hadded.later sha256 r hr
    obtain ⟨r₂, hr₂, hf₂⟩ := hlater r₁ hr₁
    exact ⟨r₂, hr₂, hf₁.trans hf₂⟩

/-! Sessions of one call. -/

/-- A session of the call. -/
def sessions (i : Nat) : SendAction → Bool
  | .read j => decide (j = i)
  | .write j _ _ _ => decide (j = i)
  | _ => false

/-- A call stays as it is but for its own sessions. -/
theorem step_call {i : Nat} {call : Call} (h : SendStep sha256 w a w')
    (hi : w.calls[i]? = some call) :
    (sessions i a = false ∧ w'.calls[i]? = some call) ∨
    (sessions i a = true ∧ ∃ call', w'.calls[i]? = some call' ∧
      (call.read sha256 w.db = some call' ∨
        ∃ ids bound now db, call.write sha256 w.db ids bound now = some (db, call'))) := by
  have hlt : i < w.calls.length := by
    by_contra hge
    rw [List.getElem?_eq_none (Nat.le_of_not_lt hge)] at hi
    cases hi
  cases a with
  | start c =>
    obtain ⟨-, rfl⟩ := h
    exact Or.inl ⟨rfl, by rw [List.getElem?_append_left hlt]; exact hi⟩
  | read j =>
    obtain ⟨c, c', hj, hread, rfl⟩ := h
    by_cases he : j = i
    · subst he
      obtain rfl := Option.some.inj (hj.symm.trans hi)
      exact Or.inr ⟨decide_eq_true rfl, c', by simp [hlt], Or.inl hread⟩
    · exact Or.inl ⟨decide_eq_false he, by simp [he, hi]⟩
  | write j ids bound now =>
    obtain ⟨c, db, c', hj, hwrite, rfl⟩ := h
    by_cases he : j = i
    · subst he
      obtain rfl := Option.some.inj (hj.symm.trans hi)
      exact Or.inr ⟨decide_eq_true rfl, c', by simp [hlt], Or.inr ⟨ids, bound, now, db, hwrite⟩⟩
    · exact Or.inl ⟨decide_eq_false he, by simp [he, hi]⟩
  | claim c now result =>
    obtain ⟨-, rfl⟩ := h
    exact Or.inl ⟨rfl, hi⟩
  | stop operationId errorCategory now =>
    obtain rfl := h
    exact Or.inl ⟨rfl, hi⟩
  | finish f now =>
    obtain rfl := h
    exact Or.inl ⟨rfl, hi⟩
  | merge sourceId targetId now =>
    obtain ⟨-, -, -, -, -, rfl⟩ := h
    exact Or.inl ⟨rfl, hi⟩
  | other db =>
    obtain ⟨-, rfl⟩ := h
    exact Or.inl ⟨rfl, hi⟩

end Yuki.Social

import Mathlib.Algebra.BigOperators.Pi
import Yuki.Runtime.Conservation

/-! Every writer that admits Work or counts its usage keeps the accounts, whatever the
order, and no counter passes a limit it was within. -/

namespace Yuki

open Db Forest WorkRepository

/-- The outcome of an admission: the Work that was there, or a new one without usage. -/
def AdmittedTo (db mid : Db) : Prop :=
  mid = db ∨ ∃ row, Inserted db mid row

theorem AdmittedTo.accounted {db mid : Db} (h : AdmittedTo db mid) (ha : Accounted db) :
    Accounted mid := by
  rcases h with rfl | ⟨row, hi⟩
  · exact ha
  · exact ha.insert hi

theorem AdmittedTo.budgets {db mid : Db} (h : AdmittedTo db mid) : mid.budgets = db.budgets := by
  rcases h with rfl | ⟨row, hi⟩
  · rfl
  · exact hi.budgets

theorem insertWork_cases {db mid : Db} {row : WorkRow} (h : insertWork db row = .ok mid)
    (hparent : ∀ p, row.parentWorkId = some p → (db.works.get? p).isSome)
    (hunused : row.modelRequests = 0 ∧ row.toolCalls = 0) : AdmittedTo db mid := by
  unfold insertWork at h
  split at h
  · exact .inl (Except.ok.inj h).symm
  · simp only [bind_eq_ok, require_eq_ok, pure_eq_ok] at h
    obtain ⟨-, hfresh, rfl⟩ := h
    refine .inr ⟨row, hfresh, fun p hp => ?_, hunused, ?_, rfl⟩
    · obtain ⟨w, hw⟩ := Option.isSome_iff_exists.mp (hparent p hp)
      exact Table.get?_isSome.mp ⟨w, hw⟩
    · rw [Table.insert, dif_neg hfresh]

theorem handOver_cases {db db' : Db} {now : Time} {lease : WorkLease} {row : WorkRow}
    {from_ : Option String} (h : handOver db now lease row from_ = .ok db') :
    SameAccounts db db' ∧ db'.budgets = db.budgets ∧ (from_ = none → db' = db) := by
  cases from_ with
  | none =>
    obtain rfl := Except.ok.inj h
    exact ⟨.refl db, rfl, fun _ => rfl⟩
  | some previousId =>
    simp only [handOver, bind_eq_ok, pure_eq_ok] at h
    obtain ⟨-, -, -, -, rfl⟩ := h
    exact ⟨.update db _ _ _ fun _ => rfl, rfl, by simp⟩

theorem acceptInSession_cases {db db' : Db} {now : Time} {lease : WorkLease} {a : Admission}
    {fresh : String} {row : WorkRow} (h : acceptInSession db now lease a fresh = .ok (db', row)) :
    ∃ mid, AdmittedTo db mid ∧ SameAccounts mid db' ∧ db'.budgets = mid.budgets ∧
      mid.works.get? row.id = some row ∧ (a.handoffFrom = none → db' = mid) := by
  simp only [acceptInSession, bind_eq_ok, pure_eq_ok, expect_eq_ok] at h
  obtain ⟨-, -, -, -, -, -, _, hadm, mid, hins, found, hrow, -, -, -, -, handed, hhand, h⟩ := h
  obtain ⟨rfl, rfl⟩ := Prod.mk.inj h
  obtain ⟨hsame, hbud, hnone⟩ := handOver_cases hhand
  refine ⟨mid, insertWork_cases hins (fun p hp => ?_) ⟨rfl, rfl⟩, hsame, hbud,
    Table.mem_rows.mp (List.mem_of_find?_eq_some hrow), hnone⟩
  have hp' : a.parentWorkId = some p := hp
  simp only [admissible, hp', require_eq_ok] at hadm
  obtain ⟨w, hw⟩ := Option.isSome_iff_exists.mp hadm.1
  rw [(Option.filter_eq_some_iff.mp hw).1]
  rfl

/-! Limits. -/

/-- No budget row is lost, its limits stay, and a counter within its limit stays within it. -/
def LimitsKept (db db' : Db) : Prop :=
  ∀ root b, db.budgets.get? root = some b → ∃ b', db'.budgets.get? root = some b' ∧
    b'.modelLimit = b.modelLimit ∧ b'.toolLimit = b.toolLimit ∧
    (∀ limit, b.modelLimit = some limit → b.models ≤ limit → b'.models ≤ limit) ∧
    ∀ limit, b.toolLimit = some limit → b.tools ≤ limit → b'.tools ≤ limit

theorem LimitsKept.of_eq {db db' : Db} (h : db'.budgets = db.budgets) : LimitsKept db db' :=
  fun root b hb => ⟨b, by rw [h, hb], rfl, rfl, fun _ _ hl => hl, fun _ _ hl => hl⟩

theorem LimitsKept.trans {db db' db'' : Db} (h : LimitsKept db db') (h' : LimitsKept db' db'') :
    LimitsKept db db'' := by
  intro root b hb
  obtain ⟨b', hb', hm, ht, hml, htl⟩ := h root b hb
  obtain ⟨b'', hb'', hm', ht', hml', htl'⟩ := h' root b' hb'
  exact ⟨b'', hb'', hm'.trans hm, ht'.trans ht,
    fun limit hl hle => hml' limit (hm.trans hl) (hml limit hl hle),
    fun limit hl hle => htl' limit (ht.trans hl) (htl limit hl hle)⟩

theorem charge_limits {db db' : Db} {identity : String} {models tools : Int}
    (h : charge db identity models tools = .ok db') : LimitsKept db db' := by
  obtain ⟨-, -, ⟨-, -, rfl⟩ | ⟨root, b, -, hopen, hadmits, rfl⟩⟩ := charge_cases h
  · exact .of_eq rfl
  intro r c hc
  have hget : (db.openBudget root).get? r = some c := by rw [get?_openBudget, hc, Option.some_or]
  rw [Table.get?_update, hget, Option.map_some]
  refine ⟨_, rfl, ?_⟩
  by_cases hr : c.rootId = root
  · have hrr : r = root := (Table.get?_key hc).symm.trans hr
    obtain rfl : b = c := Option.some.inj (by rw [← hopen, ← hget, hrr])
    rw [if_pos (by simp [hr])]
    simp only [BudgetRow.admits, Bool.and_eq_true, Bool.or_eq_true, beq_iff_eq] at hadmits
    refine ⟨rfl, rfl, fun limit hl hle => ?_, fun limit hl hle => ?_⟩
    · rcases hadmits.1 with hz | hlim
      · simpa [hz] using hle
      · simpa [hl] using hlim
    · rcases hadmits.2 with hz | hlim
      · simpa [hz] using hle
      · simpa [hl] using hlim
  · rw [if_neg (by simp [hr])]
    exact ⟨rfl, rfl, fun _ _ hl => hl, fun _ _ hl => hl⟩

/-- What a writer owes: the accounts stay right and the limits are kept. -/
structure Settles (db db' : Db) : Prop where
  accounted : Accounted db → Accounted db'
  limits : LimitsKept db db'

theorem Settles.same {db db' : Db} (h : SameAccounts db db') (hb : db'.budgets = db.budgets) :
    Settles db db' :=
  ⟨fun ha => ha.same h, .of_eq hb⟩

theorem Settles.trans {db db' db'' : Db} (h : Settles db db') (h' : Settles db' db'') :
    Settles db db'' :=
  ⟨fun ha => h'.accounted (h.accounted ha), h.limits.trans h'.limits⟩

theorem Settles.admitted {db mid : Db} (h : AdmittedTo db mid) : Settles db mid :=
  ⟨h.accounted, .of_eq h.budgets⟩

/-- Usage charged and counted on one Work in one transaction. -/
theorem Settles.charged {db charged db' : Db} {identity : String} {models tools : Int}
    (hc : charge db identity models tools = .ok charged)
    (hn : Counted db db' identity models tools) (hb : db'.budgets = charged.budgets) :
    Settles db db' :=
  ⟨fun ha => ha.charged hc hn hb, (charge_limits hc).trans (.of_eq hb)⟩

theorem acceptInSession_settles {db db' : Db} {now : Time} {lease : WorkLease} {a : Admission}
    {fresh : String} {row : WorkRow} (h : acceptInSession db now lease a fresh = .ok (db', row)) :
    Settles db db' := by
  obtain ⟨mid, hm, hs, hb, -⟩ := acceptInSession_cases h
  exact (Settles.admitted hm).trans (.same hs hb)

theorem start_settles {seen db db' : Db} {now : Time} {lease : WorkLease}
    {parentId key identity id : String} {brief : Json}
    (h : SubagentRepository.start seen db now lease parentId key brief identity = .ok (db', id)) :
    Settles db db' := by
  simp only [SubagentRepository.start, bind_eq_ok] at h
  obtain ⟨-, -, goal, -, snapshot, -, -, -, root, -, -, -, h⟩ := h
  split at h
  · simp only [bind_eq_ok, pure_eq_ok] at h
    obtain ⟨-, -, h⟩ := h
    obtain ⟨rfl, -⟩ := Prod.mk.inj h
    exact .same (.refl db) rfl
  · simp only [bind_eq_ok, pure_eq_ok, SubagentRepository.insertChild] at h
    obtain ⟨-, -, accepted, hacc, started, ⟨-, -, rfl⟩, h⟩ := h
    obtain ⟨rfl, -⟩ := Prod.mk.inj h
    exact (acceptInSession_settles hacc).trans (.same ⟨rfl, rfl⟩ rfl)

theorem derive_settles {seen seen' db db' : Db} {now : Time} {lease : WorkLease}
    {parentWorkId key goal fresh : String} {row : WorkRow}
    (h : derive seen seen' db now lease parentWorkId key goal fresh = .ok (db', row)) :
    Settles db db' := by
  simp only [derive, bind_eq_ok] at h
  obtain ⟨observed, -, h⟩ := h
  split at h
  · simp only [bind_eq_ok, pure_eq_ok] at h
    obtain ⟨started, hs, created, -, h⟩ := h
    obtain ⟨rfl, -⟩ := Prod.mk.inj h
    exact start_settles hs
  · simp only [bind_eq_ok] at h
    obtain ⟨-, -, parent, -, -, -, h⟩ := h
    exact acceptInSession_settles h

theorem charge_works {db db' : Db} {identity : String} {models tools : Int}
    (h : charge db identity models tools = .ok db') : db'.works = db.works := by
  obtain ⟨-, -, ⟨-, -, rfl⟩ | ⟨root, b, -, -, -, rfl⟩⟩ := charge_cases h <;> rfl

theorem checkpoint_settles {db db' : Db} {now : Time} {lease : WorkLease} {identity : String}
    {payload : Option Json} {models tools messages : Int} {u : Unit}
    (h : checkpoint db now lease identity payload models tools messages = .ok (db', u)) :
    Settles db db' := by
  simp only [checkpoint, bind_eq_ok, pure_eq_ok, require_eq_ok, expect_eq_ok] at h
  obtain ⟨-, hpos, -, -, charged, hc, row, hrow, -, -, h⟩ := h
  obtain ⟨rfl, -⟩ := Prod.mk.inj h
  have hc' : charge db identity models tools = .ok charged := by
    rcases onlyIf_eq_ok.mp hc with ⟨-, hc⟩ | ⟨hz, rfl⟩
    · exact hc
    · have hz' : models = 0 ∧ tools = 0 := by simpa using hz
      simp [charge, hz', require]
  have hw := charge_works hc'
  have hget : (db.works.get? identity).isSome := by
    rw [← hw, (Option.filter_eq_some_iff.mp hrow).1]
    rfl
  exact .charged hc' (.update hw rfl (fun _ => rfl) hget fun w _ => rfl) rfl

theorem chargeDispatch_settles {db db' : Db} {now : Time} {lease : WorkLease} {identity : String}
    (h : chargeDispatch db now lease identity = .ok db') : Settles db db' := by
  obtain ⟨charged, w, hc, hget, rfl⟩ := chargeDispatch_cases h
  have hw := charge_works hc
  exact .charged hc (.update hw rfl (fun _ => rfl) (by rw [← hw, hget]; rfl) fun w _ => by simp [account]) rfl

theorem admitDispatch_settles {seen db db' : Db} {now : Time} {lease : WorkLease}
    {identity key : String} {charge b : Bool}
    (h : admitDispatch seen db now lease identity key charge = .ok (db', b)) : Settles db db' := by
  rcases admitDispatch_cases h with ⟨-, rfl⟩ | ⟨e, marked, -, -, -, -, -, -, -, h⟩
  · exact .same (.refl db') rfl
  have hset : Settles db (db.setEffect key .prepared (encodeJson marked) now) := .same ⟨rfl, rfl⟩ rfl
  cases charge with
  | true => exact hset.trans (chargeDispatch_settles h)
  | false =>
    obtain rfl := h
    exact hset

theorem controlAccept_settles {db db' : Db} {now : Time} {lease : WorkLease} {sourceKey : String}
    {source args : Json} {requestsStarted : Int} {ending : Option String} {callKey : String}
    {metadata : Option Json} {fresh : String} {row : WorkRow}
    (h : WorkControl.accept db now lease sourceKey source args requestsStarted ending callKey metadata
      fresh = .ok (db', row)) : Settles db db' := by
  simp only [WorkControl.accept, bind_eq_ok, pure_eq_ok] at h
  obtain ⟨goal, -, ⟨mid', admitted⟩, hacc, charged, hch, recorded, hrec, h⟩ := h
  obtain ⟨rfl, -⟩ := Prod.mk.inj h
  obtain ⟨mid, hm, -, -, hget, hnone⟩ := acceptInSession_cases hacc
  obtain rfl : mid' = mid := hnone rfl
  have hrec' : Settles charged recorded := by
    cases metadata with
    | none =>
      obtain rfl := Except.ok.inj hrec
      exact .same (.refl _) rfl
    | some m =>
      simp only [WorkControl.insertAdmission, bind_eq_ok, pure_eq_ok] at hrec
      obtain ⟨-, -, -, -, rfl⟩ := hrec
      exact .same ⟨rfl, rfl⟩ rfl
  refine (Settles.admitted hm).trans (Settles.trans ?_ hrec')
  dsimp only at hch
  unfold WorkControl.chargeStarted at hch
  split at hch
  · rename_i hstart
    simp only [bind_eq_ok, pure_eq_ok] at hch
    obtain ⟨spent, hc, rfl⟩ := hch
    have hw := charge_works hc
    refine .charged hc (.update hw rfl (fun _ => rfl) (by rw [hget]; rfl) fun w hw' => ?_) rfl
    obtain rfl := Option.some.inj (hget.symm.trans hw')
    simp [account, hstart.2]
  · obtain rfl := Except.ok.inj hch
    exact .same (.refl _) rfl

inductive BudgetOp
  | accept (lease : WorkLease) (a : Admission) (fresh : String)
  | acceptInSession (lease : WorkLease) (a : Admission) (fresh : String)
  | derive (seen seen' : Db) (lease : WorkLease) (parentWorkId key goal fresh : String)
  | start (seen : Db) (lease : WorkLease) (parentId key : String) (brief : Json) (identity : String)
  | controlAccept (lease : WorkLease) (sourceKey : String) (source args : Json)
      (requestsStarted : Int) (ending : Option String) (callKey : String) (metadata : Option Json)
      (fresh : String)
  | checkpoint (lease : WorkLease) (identity : String) (payload : Option Json)
      (models tools messages : Int)
  | admitDispatch (seen : Db) (lease : WorkLease) (identity key : String) (charge : Bool)

/-- What the transaction of an operation commits at time `now`. -/
def BudgetOp.exec (db : Db) (now : Time) : BudgetOp → Except Err Db
  | accept lease a fresh => (WorkRepository.accept db now lease a fresh).map Prod.fst
  | acceptInSession lease a fresh =>
    (WorkRepository.acceptInSession db now lease a fresh).map Prod.fst
  | derive seen seen' lease parentWorkId key goal fresh =>
    (WorkRepository.derive seen seen' db now lease parentWorkId key goal fresh).map Prod.fst
  | start seen lease parentId key brief identity =>
    (SubagentRepository.start seen db now lease parentId key brief identity).map Prod.fst
  | controlAccept lease sourceKey source args requestsStarted ending callKey metadata fresh =>
    (WorkControl.accept db now lease sourceKey source args requestsStarted ending callKey metadata
      fresh).map Prod.fst
  | checkpoint lease identity payload models tools messages =>
    (WorkRepository.checkpoint db now lease identity payload models tools messages).map Prod.fst
  | admitDispatch seen lease identity key charge =>
    (WorkRepository.admitDispatch seen db now lease identity key charge).map Prod.fst

inductive BudgetEvent
  | committed (op : BudgetOp) (now : Time)
  | failed (op : BudgetOp) (now : Time) (e : Err)
  /-- Limits set from outside; the runtime itself sets none. -/
  | limits
  | other

/-- A step is one transaction, committed or rolled back; a change of limits; or any other
change that leaves accounts and budgets alone. -/
inductive BudgetStep : Db → BudgetEvent → Db → Prop
  | commit {db db' : Db} {op : BudgetOp} {now : Time} :
    op.exec db now = .ok db' → BudgetStep db (.committed op now) db'
  | rollback {db : Db} {op : BudgetOp} {now : Time} {e : Err} :
    op.exec db now = .error e → BudgetStep db (.failed op now e) db
  | limits {db db' : Db} : SameAccounts db db' → BudgetStep db .limits db'
  | other {db db' : Db} : SameAccounts db db' → db'.budgets = db.budgets → BudgetStep db .other db'

theorem BudgetOp.settles {op : BudgetOp} {db db' : Db} {now : Time}
    (h : op.exec db now = .ok db') : Settles db db' := by
  cases op <;> obtain ⟨⟨r, x⟩, hr, rfl⟩ := map_eq_ok.mp h
  case accept => exact acceptInSession_settles hr
  case acceptInSession => exact acceptInSession_settles hr
  case derive => exact derive_settles hr
  case start => exact start_settles hr
  case controlAccept => exact controlAccept_settles hr
  case checkpoint => exact checkpoint_settles hr
  case admitDispatch => exact admitDispatch_settles hr

theorem BudgetStep.accounted {db db' : Db} {event : BudgetEvent} (h : BudgetStep db event db')
    (ha : Accounted db) : Accounted db' := by
  cases h with
  | commit h => exact (BudgetOp.settles h).accounted ha
  | rollback => exact ha
  | limits h => exact ha.same h
  | other h => exact ha.same h

theorem BudgetStep.limitsKept {db db' : Db} {event : BudgetEvent} (h : BudgetStep db event db')
    (hne : event ≠ .limits) : LimitsKept db db' := by
  cases h with
  | commit h => exact (BudgetOp.settles h).limits
  | rollback => exact .of_eq rfl
  | limits => exact absurd rfl hne
  | other _ hb => exact .of_eq hb

theorem limitsKept_run {db db' : Db} {events : List BudgetEvent} (h : Run BudgetStep db events db')
    (hne : ∀ event ∈ events, event ≠ .limits) : LimitsKept db db' := by
  induction h with
  | nil => exact .of_eq rfl
  | cons hs _ ih =>
    exact (hs.limitsKept (hne _ (by simp))).trans (ih fun event he => hne event (by simp [he]))

/-- Without Work there is nothing to account for. -/
theorem Accounted.initial {db : Db} (hw : db.works.rows = []) (hb : db.budgets.rows = []) :
    Accounted db := by
  have hget : ∀ id, db.works.get? id = none := fun id => by simp [Table.get?, hw]
  have hbud : ∀ id, db.budgets.get? id = none := fun id => by simp [Table.get?, hb]
  refine ⟨fun w hmem => by simp [hw] at hmem, fun x p hp => ?_, fun r m hm => ?_, fun r m hm => ?_,
    fun r hr => ?_⟩
  · simp [Db.ledger, Db.parent, hget] at hp
  · simp [Db.ledger, hbud] at hm
  · simp [Db.ledger, hbud] at hm
  · simp [Db.ledger, hw] at hr

/-- The sum over a tree of the table is the sum over the tree of its ledger. -/
theorem treeSum_eq {db : Db} (h : db.ParentsFirst) (root : String) (counter : WorkRow → Int)
    (read : Int × Int → Int) (hread : ∀ w : WorkRow, read (w.modelRequests, w.toolCalls) = counter w) :
    db.treeSum root counter = ∑ id ∈ db.ledger.tree root, read (db.ledger.usage id) := by
  have hnd : ((db.works.rows.filter fun w => db.isDescendant root true w.id).map WorkRow.id).Nodup :=
    (List.Sublist.map _ List.filter_sublist).nodup db.works.nodup
  have htree : db.ledger.tree root =
      ((db.works.rows.filter fun w => db.isDescendant root true w.id).map WorkRow.id).toFinset := by
    ext id
    simp only [Ledger.mem_tree, List.mem_toFinset, List.mem_map, List.mem_filter, Db.ledger]
    constructor
    · rintro ⟨⟨w, hw, rfl⟩, ha⟩
      refine ⟨w, ⟨hw, ?_⟩, rfl⟩
      rw [isDescendant_iff h, Table.mem_rows.mp hw]
      exact ⟨rfl, ha⟩
    · rintro ⟨w, ⟨hw, hd⟩, rfl⟩
      exact ⟨⟨w, hw, rfl⟩, ((isDescendant_iff h).mp hd).2⟩
  rw [htree, List.sum_toFinset _ hnd, List.map_map, Db.treeSum]
  congr 1
  refine List.map_congr_left fun w hw => ?_
  have hget := Table.mem_rows.mp (List.mem_of_mem_filter hw)
  simp [Db.ledger, hget, hread]

theorem Accounted.budget {db : Db} (h : Accounted db) {b : BudgetRow} (hb : b ∈ db.budgets.rows) :
    b.models = db.treeSum b.rootId WorkRow.modelRequests ∧
      b.tools = db.treeSum b.rootId WorkRow.toolCalls := by
  have hshared : db.ledger.shared b.rootId = some (b.models, b.tools) := by
    simp [Db.ledger, Table.mem_rows.mp hb]
  have htotal := h.conserved.total _ _ hshared
  have hfst := congrArg Prod.fst htotal
  have hsnd := congrArg Prod.snd htotal
  rw [Prod.fst_sum] at hfst
  rw [Prod.snd_sum] at hsnd
  exact ⟨hfst.trans (treeSum_eq h.parents _ _ Prod.fst fun _ => rfl).symm,
    hsnd.trans (treeSum_eq h.parents _ _ Prod.snd fun _ => rfl).symm⟩

/-- Root budget conservation. From no Work, in every order of admissions, charges and
their failures: the Work tree has no cycle and every Work one budget root; a budget row
holds exactly what its tree has used; a counter within its limit stays within it; and a
transaction that fails changes nothing. -/
theorem root_budget_conserved {db db' : Db} {events : List BudgetEvent}
    (hw : db.works.rows = []) (hb : db.budgets.rows = []) (hr : Run BudgetStep db events db') :
    (∀ id, ¬ Relation.TransGen (Up db'.parent) id id) ∧
    (∀ w ∈ db'.works.rows, ∃ root, db'.budgetRootId w.id = .ok root ∧
      ∀ r, Above db'.parent w.id r ∧ db'.parent r = none ↔ r = root) ∧
    (∀ b ∈ db'.budgets.rows, b.models = db'.treeSum b.rootId WorkRow.modelRequests ∧
      b.tools = db'.treeSum b.rootId WorkRow.toolCalls) ∧
    (∀ later db'', Run BudgetStep db' later db'' → (∀ event ∈ later, event ≠ .limits) →
      LimitsKept db' db'') ∧
    ∀ s op now e t, BudgetStep s (.failed op now e) t → t = s := by
  have ha : Accounted db' :=
    hr.invariant (fun _ _ _ ha h => h.accounted ha) (Accounted.initial hw hb)
  refine ⟨ha.parents.ranked.acyclic, fun w hmem => ?_, fun b hmem => ha.budget hmem,
    fun later db'' hl hne => limitsKept_run hl hne, fun s op now e t h => ?_⟩
  · obtain ⟨root, hroot, habove, hnone⟩ :=
      ha.parents.budgetRootId (by rw [Table.mem_rows.mp hmem]; rfl)
    refine ⟨root, hroot, fun r => ⟨fun ⟨hr, hn⟩ => ?_, fun e => e ▸ ⟨habove, hnone⟩⟩⟩
    exact ha.parents.ranked.root_unique hr hn habove hnone
  · cases h
    rfl

/-- A worker's usage counts against its parent's budget. -/
theorem root_budget_conserved_worker :
    let lease : WorkLease := ⟨"c", 1, 0, 1, "o", none⟩
    let db : Db := { scopes := .insert .empty ⟨"c", 1, 0, 1, some "o", 60⟩ }
    let run (db : Db) (op : BudgetOp) : Db := (op.exec db 1).toOption.getD db
    let accept : BudgetOp := .controlAccept lease "s" (.obj []) (.obj [("goal", .str "g")]) 2 none "k"
      none "w"
    let db₁ := run db accept
    let start : BudgetOp := .start db₁ lease "w" "key" (.obj [("goal", .str "g")]) "v"
    let db₂ := run db₁ start
    let use : BudgetOp := .checkpoint lease "v" none 3 1 0
    let db₃ := run db₂ use
    (∀ b ∈ db₃.budgets.rows, b.models = db₃.treeSum b.rootId WorkRow.modelRequests ∧
      b.tools = db₃.treeSum b.rootId WorkRow.toolCalls) ∧
    db₃.budgets.rows.map (fun b => (b.rootId, b.models, b.tools)) = [("w", 5, 1)] := by
  intro lease db run accept db₁ start db₂ use db₃
  have hstep : ∀ s (op : BudgetOp), (op.exec s 1).toOption.isSome = true →
      BudgetStep s (.committed op 1) (run s op) := by
    intro s op h
    obtain ⟨t, ht⟩ := Option.isSome_iff_exists.mp h
    cases he : op.exec s 1 with
    | error e => simp [he, Except.toOption] at ht
    | ok t => exact .commit (by simp [run, he, Except.toOption])
  have hr : Run BudgetStep db [.committed accept 1, .committed start 1, .committed use 1] db₃ :=
    .cons (hstep _ _ (by decide +kernel)) (.cons (hstep _ _ (by decide +kernel))
      (.single (hstep _ _ (by decide +kernel))))
  exact ⟨(root_budget_conserved (by decide) (by decide) hr).2.2.1, by decide +kernel⟩

end Yuki

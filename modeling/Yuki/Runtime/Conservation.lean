import Yuki.Effects.Writers
import Yuki.Lib.Ledger
import Yuki.Runtime.Control

/-! The shared budget of a root counts exactly what the Work in its tree has used. -/

namespace Yuki

open Forest WorkRepository

namespace Db

/-- The columns of a Work that accounting reads. -/
def account (w : WorkRow) : String × Option String × Int × Int :=
  (w.id, w.parentWorkId, w.modelRequests, w.toolCalls)

def usage (b : BudgetRow) : String × Int × Int :=
  (b.rootId, b.models, b.tools)

/-- The sum of a counter over a root and all its descendants. -/
def treeSum (db : Db) (root : String) (counter : WorkRow → Int) : Int :=
  ((db.works.rows.filter fun w => db.isDescendant root true w.id).map counter).sum

/-- What the tables say as a ledger of models and tools. -/
noncomputable def ledger (db : Db) : Ledger String (Int × Int) where
  nodes := (db.works.rows.map WorkRow.id).toFinset
  parent := db.parent
  usage id := ((db.works.get? id).map fun w => (w.modelRequests, w.toolCalls)).getD 0
  shared root := (db.budgets.get? root).map fun b => (b.models, b.tools)

end Db

open Db

/-- Two states with the same Works, parents, counters and shared totals. -/
structure SameAccounts (db db' : Db) : Prop where
  works : db'.works.rows.map account = db.works.rows.map account
  budgets : db'.budgets.rows.map usage = db.budgets.rows.map usage

theorem SameAccounts.refl (db : Db) : SameAccounts db db := ⟨rfl, rfl⟩

theorem SameAccounts.trans {db db' db'' : Db} (h : SameAccounts db db')
    (h' : SameAccounts db' db'') : SameAccounts db db'' :=
  ⟨h'.works.trans h.works, h'.budgets.trans h.budgets⟩

theorem SameAccounts.update (db : Db) (p : WorkRow → Bool) (f : WorkRow → WorkRow)
    (hf : ∀ w, (f w).id = w.id) (h : ∀ w, account (f w) = account w) :
    SameAccounts db { db with
      works := db.works.update p f hf } := by
  refine ⟨?_, rfl⟩
  rw [Table.rows_update, List.map_map]
  refine List.map_congr_left fun w _ => ?_
  by_cases hp : p w = true <;> simp [hp, h]

/-- A projection that keeps the key commutes with reading a row. -/
theorem get?_map_of_rows {ρ κ β : Type} [DecidableEq κ] {key : ρ → κ} {t t' : Table key}
    {g : ρ → β} (k' : β → κ) (hk : ∀ r, k' (g r) = key r)
    (h : t'.rows.map g = t.rows.map g) (k : κ) : (t'.get? k).map g = (t.get? k).map g := by
  have hfind : ∀ s : Table key, (s.get? k).map g = (s.rows.map g).find? fun b => k' b = k := by
    intro s
    rw [List.find?_map]
    simp [Table.get?, hk, Function.comp_def]
  rw [hfind, hfind, h]

theorem SameAccounts.work {db db' : Db} (h : SameAccounts db db') (id : String) :
    (db'.works.get? id).map account = (db.works.get? id).map account :=
  get?_map_of_rows Prod.fst (fun _ => rfl) h.works id

theorem SameAccounts.budget {db db' : Db} (h : SameAccounts db db') (id : String) :
    (db'.budgets.get? id).map usage = (db.budgets.get? id).map usage :=
  get?_map_of_rows Prod.fst (fun _ => rfl) h.budgets id

theorem SameAccounts.ids {db db' : Db} (h : SameAccounts db db') :
    db'.works.rows.map WorkRow.id = db.works.rows.map WorkRow.id := by
  have hh := congrArg (List.map Prod.fst) h.works
  simpa [List.map_map, Function.comp_def, account] using hh

theorem SameAccounts.parent {db db' : Db} (h : SameAccounts db db') : db'.parent = db.parent := by
  funext id
  have hh := congrArg (fun o => o.bind fun a => a.2.1) (h.work id)
  simpa [Db.parent, Option.bind_map, Function.comp_def, account] using hh

theorem SameAccounts.ledger {db db' : Db} (h : SameAccounts db db') : db'.ledger = db.ledger := by
  have hu : ∀ id, ((db'.works.get? id).map fun w => (w.modelRequests, w.toolCalls)) =
      (db.works.get? id).map fun w => (w.modelRequests, w.toolCalls) := by
    intro id
    have hh := congrArg (Option.map fun a => (a.2.2.1, a.2.2.2)) (h.work id)
    simpa [Option.map_map, Function.comp_def, account] using hh
  have hs : ∀ r, ((db'.budgets.get? r).map fun b => (b.models, b.tools)) =
      (db.budgets.get? r).map fun b => (b.models, b.tools) := by
    intro r
    have hh := congrArg (Option.map fun a => (a.2.1, a.2.2)) (h.budget r)
    simpa [Option.map_map, Function.comp_def, usage] using hh
  simp only [Db.ledger, h.ids, h.parent, hu, hs]

/-- A row stands where its key says, with a parent before it. -/
theorem ParentsFirst.of_rows {db db' : Db} (h : db.ParentsFirst)
    (hrows : (db'.works.rows.map fun w => (w.id, w.parentWorkId)) =
      db.works.rows.map fun w => (w.id, w.parentWorkId)) : db'.ParentsFirst := by
  have hids : db'.works.rows.map WorkRow.id = db.works.rows.map WorkRow.id := by
    have hh := congrArg (List.map Prod.fst) hrows
    simpa [List.map_map, Function.comp_def] using hh
  intro w hw p hp
  have hmem : (w.id, w.parentWorkId) ∈ db.works.rows.map fun w => (w.id, w.parentWorkId) := by
    rw [← hrows]
    exact List.mem_map_of_mem hw
  obtain ⟨v, hv, he⟩ := List.mem_map.mp hmem
  obtain ⟨hid, hpar⟩ := Prod.mk.inj he
  rw [hids, ← hid]
  exact h v hv p (hpar.trans hp)

/-- What every reachable state keeps. -/
structure Accounted (db : Db) : Prop where
  parents : db.ParentsFirst
  conserved : db.ledger.Conserved

theorem Accounted.same {db db' : Db} (h : Accounted db) (hs : SameAccounts db db') :
    Accounted db' := by
  refine ⟨ParentsFirst.of_rows h.parents ?_, hs.ledger ▸ h.conserved⟩
  have hh := congrArg (List.map fun a => (a.1, a.2.1)) hs.works
  simpa [List.map_map, Function.comp_def, account] using hh

/-! A new Work. -/

/-- A Work without usage, inserted under an existing parent or none. -/
structure Inserted (db db' : Db) (row : WorkRow) : Prop where
  fresh : row.id ∉ db.works.rows.map WorkRow.id
  parent : ∀ p, row.parentWorkId = some p → p ∈ db.works.rows.map WorkRow.id
  unused : row.modelRequests = 0 ∧ row.toolCalls = 0
  works : db'.works.rows = db.works.rows ++ [row]
  budgets : db'.budgets = db.budgets

theorem get?_of_append {db db' : Db} {row : WorkRow} (h : Inserted db db' row) (id : String) :
    db'.works.get? id = if id = row.id then some row else db.works.get? id := by
  have hf : db'.works.get? id = (db.works.get? id).or (if row.id = id then some row else none) := by
    rw [Table.get?, Table.get?, h.works, List.find?_append]
    congr 1
    by_cases he : row.id = id <;> simp [he]
  rw [hf]
  by_cases he : id = row.id
  · subst he
    rw [Table.get?_eq_none.mpr h.fresh]
    simp
  · rw [if_neg he, if_neg (Ne.symm he), Option.or_none]

theorem Inserted.parentsFirst {db db' : Db} {row : WorkRow} (h : Inserted db db' row)
    (hp : db.ParentsFirst) : db'.ParentsFirst := by
  intro w hw p hwp
  rw [h.works, List.map_append, List.mem_append] at *
  have hlt : ∀ q ∈ db.works.rows.map WorkRow.id,
      (db.works.rows.map WorkRow.id ++ [row].map WorkRow.id).idxOf q =
        (db.works.rows.map WorkRow.id).idxOf q :=
    fun q hq => List.idxOf_append_of_mem hq
  rcases hw with hw | hw
  · obtain ⟨hmem, hidx⟩ := hp w hw p hwp
    refine ⟨.inl hmem, ?_⟩
    rw [hlt p hmem, hlt w.id (List.mem_map_of_mem hw)]
    exact hidx
  · obtain rfl := List.mem_singleton.mp hw
    have hmem := h.parent p hwp
    refine ⟨.inl hmem, ?_⟩
    rw [hlt p hmem, List.idxOf_append_of_notMem h.fresh]
    have := List.idxOf_lt_length_iff.mpr hmem
    omega

theorem Inserted.adopted {db db' : Db} {row : WorkRow} (h : Inserted db db' row) :
    db.ledger.Adopted db'.ledger row.id where
  fresh := by simpa [Db.ledger] using h.fresh
  nodes y := by
    simp only [Db.ledger, h.works, List.map_append, List.toFinset_append, Finset.mem_union]
    simp [or_comm]
  parent y hy := by
    simp [Db.ledger, Db.parent, get?_of_append h, hy]
  below p hp := by
    have hp' : row.parentWorkId = some p := by
      simpa [Db.ledger, Db.parent, get?_of_append h] using hp
    simpa [Db.ledger] using h.parent p hp'
  usage y hy := by simp [Db.ledger, get?_of_append h, hy]
  unused := by simp [Db.ledger, get?_of_append h, h.unused]
  shared := by simp only [Db.ledger, h.budgets]

theorem Accounted.insert {db db' : Db} {row : WorkRow} (h : Accounted db)
    (hi : Inserted db db' row) : Accounted db' :=
  ⟨hi.parentsFirst h.parents, h.conserved.adopt hi.adopted⟩

/-! A charge, with the counter of one Work moved as far. -/

/-- A charge seen from the shared totals: its root's total, opened from the root's own
usage if need be, grows. -/
theorem charge_shared {db : Db} {root : String} {b : BudgetRow} (models tools : Int)
    (hb : (db.openBudget root).get? root = some b) (r : String) :
    (((db.openBudget root).update (fun b => b.rootId = root) fun b =>
        { b with models := b.models + models, tools := b.tools + tools }).get? r).map
        (fun b => (b.models, b.tools)) =
      if r = root then some ((db.ledger.shared r).getD (db.ledger.usage r) + (models, tools))
      else db.ledger.shared r := by
  rw [Table.get?_update]
  split
  · rename_i he
    subst he
    rw [hb, Option.map_some, Option.map_some, if_pos (by simp [Table.get?_key hb])]
    rw [get?_openBudget, if_pos rfl] at hb
    cases hbud : db.budgets.get? r with
    | some b' =>
      rw [hbud, Option.some_or, Option.some.injEq] at hb
      simp [Db.ledger, hbud, hb]
    | none =>
      rw [hbud, Option.none_or] at hb
      obtain ⟨w, hw, rfl⟩ := Option.map_eq_some_iff.mp hb
      simp [Db.ledger, hbud, hw]
  · rename_i hne
    rw [get?_openBudget, if_neg (Ne.symm hne), Option.or_none]
    cases hbud : db.budgets.get? r with
    | none => simp [Db.ledger, hbud]
    | some b' =>
      have hk := Table.get?_key hbud
      simp [Db.ledger, hbud, hk, hne]

/-- One Work counts `models` and `tools` more; nothing else of any Work changes. -/
structure Counted (db db' : Db) (identity : String) (models tools : Int) : Prop where
  tree : (db'.works.rows.map fun w => (w.id, w.parentWorkId)) =
    db.works.rows.map fun w => (w.id, w.parentWorkId)
  usage : ∀ y, db'.ledger.usage y =
    if y = identity then db.ledger.usage y + (models, tools) else db.ledger.usage y

theorem Counted.update {db charged db' : Db} {identity : String} {models tools : Int}
    {f : WorkRow → WorkRow} (hworks : charged.works = db.works)
    (hrows : db'.works.rows = charged.works.rows.map fun w =>
      if decide (w.id = identity) = true then f w else w)
    (hf : ∀ w, (f w).id = w.id) (hs : (db.works.get? identity).isSome)
    (hacc : ∀ w, db.works.get? identity = some w →
      account (f w) = (w.id, w.parentWorkId, w.modelRequests + models, w.toolCalls + tools)) :
    Counted db db' identity models tools := by
  have hw : db'.works = db.works.update (fun w => w.id = identity) f hf :=
    Table.eq_of_rows (by rw [hrows, hworks, Table.rows_update])
  have hrow : ∀ w ∈ db.works.rows, w.id = identity → account (f w) =
      (w.id, w.parentWorkId, w.modelRequests + models, w.toolCalls + tools) := by
    intro w hmem he
    exact hacc w (Table.get?_eq_some.mpr ⟨hmem, he⟩)
  refine ⟨?_, fun y => ?_⟩
  · rw [hw, Table.rows_update, List.map_map]
    refine List.map_congr_left fun w hmem => ?_
    by_cases he : w.id = identity
    · have := congrArg (fun a => (a.1, a.2.1)) (hrow w hmem he)
      simpa [he, account] using this
    · simp [he]
  · obtain ⟨v, hv⟩ := Option.isSome_iff_exists.mp hs
    simp only [Db.ledger, hw, Table.get?_update]
    cases hy : db.works.get? y with
    | none =>
      have hne : y ≠ identity := fun e => by simp [← e, hy] at hv
      simp [hne]
    | some w =>
      have hk := Table.get?_key hy
      by_cases he : w.id = identity
      · have := congrArg (fun a => (a.2.2.1, a.2.2.2)) (hrow w (Table.get?_mem hy) he)
        simpa [he, ← hk, account] using this
      · have hne : y ≠ identity := hk ▸ he
        simp [he, hne]

theorem parent_of_rows {db db' : Db}
    (h : (db'.works.rows.map fun w => (w.id, w.parentWorkId)) =
      db.works.rows.map fun w => (w.id, w.parentWorkId)) : db'.parent = db.parent := by
  funext id
  have hh := get?_map_of_rows Prod.fst (fun _ => rfl) h id
  have hh' := congrArg (fun o => o.bind Prod.snd) hh
  simpa [Db.parent, Option.bind_map, Function.comp_def] using hh'

/-- Usage of one Work, charged and counted in one transaction. -/
theorem Accounted.charged {db charged db' : Db} {identity : String} {models tools : Int}
    (h : Accounted db) (hc : charge db identity models tools = .ok charged)
    (hn : Counted db db' identity models tools) (hb : db'.budgets = charged.budgets) :
    Accounted db' := by
  have hparent := parent_of_rows hn.tree
  have hids : db'.works.rows.map WorkRow.id = db.works.rows.map WorkRow.id := by
    have hh := congrArg (List.map Prod.fst) hn.tree
    simpa [List.map_map, Function.comp_def] using hh
  refine ⟨ParentsFirst.of_rows h.parents hn.tree, ?_⟩
  obtain ⟨-, -, ⟨rfl, rfl, rfl⟩ | ⟨root, b, hroot, hbud, -, rfl⟩⟩ := charge_cases hc
  · have hl : db'.ledger = charged.ledger := by
      have hu : db'.ledger.usage = charged.ledger.usage := by
        funext y
        rw [hn.usage y]
        split
        · exact add_zero _
        · rfl
      simp only [Db.ledger] at hu ⊢
      simp only [hids, hparent, hb, hu]
    exact hl ▸ h.conserved
  · obtain ⟨hs, ha, hpn⟩ := h.parents.of_budgetRootId hroot
    obtain ⟨v, hv⟩ := Option.isSome_iff_exists.mp hs
    suffices hspent : Ledger.Spent db.ledger db'.ledger identity root (models, tools) from
      h.conserved.spend h.parents.ranked hspent
    refine ⟨?_, ⟨ha, hpn⟩, ?_, hparent, hn.usage, fun r => ?_⟩
    · simpa [Db.ledger] using Table.get?_isSome.mp ⟨v, hv⟩
    · simp only [Db.ledger, hids]
    · have hsh := charge_shared models tools hbud r
      rw [← hsh]
      simp only [Db.ledger, hb]

end Yuki

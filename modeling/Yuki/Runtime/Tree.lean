import Yuki.Lib.Forest
import Yuki.Runtime.Schema

/-! The business Work tree, read from its single parent relation. -/

namespace Yuki

open Forest

namespace Db

def parent (db : Db) (id : String) : Option String :=
  (db.works.get? id).bind WorkRow.parentWorkId

/-- `_lineage`: a Work followed by the Works above it, the root last. -/
def lineage (db : Db) (workId : String) : List String :=
  if (db.works.get? workId).isSome then climb db.parent db.works.rows.length workId else []

/-- `ancestors`. -/
def ancestors (db : Db) (workId : String) (includeSelf : Bool) : List String :=
  if includeSelf then db.lineage workId else (db.lineage workId).drop 1

/-- `descendants`: the Works whose lineage goes through `workId`. -/
def isDescendant (db : Db) (workId : String) (includeSelf : Bool) (id : String) : Bool :=
  (db.lineage id).contains workId && (includeSelf || id != workId)

/-- `budget_root_id`; `scalar_one` raises when the lineage has no root. -/
def budgetRootId (db : Db) (workId : String) : Except Err String :=
  match (db.lineage workId).filter fun id => (db.parent id).isNone with
  | [root] => .ok root
  | _ => .error (.runtime "budget_root_id")

/-- Every parent stands in the table, before its children. -/
def ParentsFirst (db : Db) : Prop :=
  ∀ w ∈ db.works.rows, ∀ p, w.parentWorkId = some p →
    p ∈ db.works.rows.map WorkRow.id ∧
      (db.works.rows.map WorkRow.id).idxOf p < (db.works.rows.map WorkRow.id).idxOf w.id

def rank (db : Db) (id : String) : Nat :=
  (db.works.rows.map WorkRow.id).idxOf id

theorem parent_eq_some {db : Db} {id p : String} :
    db.parent id = some p ↔ ∃ w, db.works.get? id = some w ∧ w.parentWorkId = some p := by
  simp [parent, Option.bind_eq_some_iff]

theorem ParentsFirst.ranked {db : Db} (h : db.ParentsFirst) : Ranked db.parent db.rank := by
  intro x p hp
  obtain ⟨w, hw, hwp⟩ := parent_eq_some.mp hp
  obtain ⟨hmem, rfl⟩ := Table.get?_eq_some.mp hw
  exact (h w hmem p hwp).2

theorem rank_lt {db : Db} {id : String} (h : (db.works.get? id).isSome) :
    db.rank id < db.works.rows.length := by
  obtain ⟨w, hw⟩ := Option.isSome_iff_exists.mp h
  have hmem := Table.get?_isSome.mp ⟨w, hw⟩
  simpa [rank] using List.idxOf_lt_length_iff.mpr hmem

theorem ParentsFirst.mem_lineage {db : Db} (h : db.ParentsFirst) {id a : String} :
    a ∈ db.lineage id ↔ (db.works.get? id).isSome ∧ Above db.parent id a := by
  unfold lineage
  by_cases hs : (db.works.get? id).isSome
  · simp [hs, h.ranked.mem_climb (rank_lt hs)]
  · simp [hs]

theorem isDescendant_iff {db : Db} (h : db.ParentsFirst) {root id : String} :
    db.isDescendant root true id = true ↔ (db.works.get? id).isSome ∧ Above db.parent id root := by
  simp [isDescendant, h.mem_lineage]

/-- The root a charge goes to is the one root above the Work. -/
theorem ParentsFirst.budgetRootId {db : Db} (h : db.ParentsFirst) {id : String}
    (hs : (db.works.get? id).isSome) :
    ∃ root, db.budgetRootId id = .ok root ∧ Above db.parent id root ∧ db.parent root = none := by
  obtain ⟨root, hfilter, ha, hroot⟩ := h.ranked.filter_climb (rank_lt hs)
  refine ⟨root, ?_, ha, hroot⟩
  rw [Db.budgetRootId, lineage, if_pos hs, hfilter]

theorem ParentsFirst.of_budgetRootId {db : Db} (h : db.ParentsFirst) {id root : String}
    (hr : db.budgetRootId id = .ok root) :
    (db.works.get? id).isSome ∧ Above db.parent id root ∧ db.parent root = none := by
  have hs : (db.works.get? id).isSome := by
    by_contra hn
    simp [Db.budgetRootId, lineage, hn] at hr
  obtain ⟨root', hr', ha, hroot⟩ := h.budgetRootId hs
  obtain rfl := Except.ok.inj (hr.symm.trans hr')
  exact ⟨hs, ha, hroot⟩

end Db

end Yuki

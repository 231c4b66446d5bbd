import Yuki.Identity.Persons
import Yuki.Lib.Transition
import Yuki.Lib.UnionFind

/-! Merges of persons: families stay flat, a stale plan is rejected, and every
setting of the source arrives or gives way. -/

namespace Yuki.Identity

/-! Families as classes of a flat union-find. -/

/-- Every person is a root, or points at one that exists. -/
structure Rooted (persons : Table Person.id) : Prop where
  flat : UnionFind.Flat (parentOf persons)
  present : ∀ id m, parentOf persons id = some m → m ∈ persons.rows.map (·.id)

section

variable {persons : Table Person.id} {a b s t : String} {now : Int}

theorem parentOf_of_get? {person : Person} (h : persons.get? a = some person) :
    parentOf persons a = person.mergedInto := by
  rw [parentOf, h]
  rfl

theorem parentOf_of_roots (h : ∀ person ∈ persons.rows, person.mergedInto = none) (id : String) :
    parentOf persons id = none := by
  cases hget : persons.get? id with
  | none =>
    rw [parentOf, hget]
    rfl
  | some person => rw [parentOf_of_get? hget, h person (Table.get?_mem hget)]

theorem Rooted.of_roots (h : ∀ person ∈ persons.rows, person.mergedInto = none) :
    Rooted persons := by
  refine ⟨fun id m hm => ?_, fun id m hm => ?_⟩ <;>
    (rw [parentOf_of_roots h] at hm; cases hm)

theorem personRootId_eq (persons : Table Person.id) (a : String) :
    personRootId persons a =
      if a ∈ persons.rows.map (·.id) then some (UnionFind.root (parentOf persons) a) else none := by
  cases h : persons.get? a with
  | none =>
    rw [if_neg (Table.get?_eq_none.mp h), personRootId, h]
    rfl
  | some person =>
    have hkey := Table.get?_key h
    rw [if_pos (Table.get?_isSome.mp ⟨person, h⟩), personRootId, h, UnionFind.root,
      parentOf_of_get? h, Option.map_some, Person.root, hkey]

theorem samePersonId_iff :
    samePersonId persons a b = true ↔ a ∈ persons.rows.map (·.id) ∧ b ∈ persons.rows.map (·.id) ∧
      UnionFind.root (parentOf persons) a = UnionFind.root (parentOf persons) b := by
  unfold samePersonId
  rw [personRootId_eq, personRootId_eq]
  by_cases ha : a ∈ persons.rows.map (·.id) <;> by_cases hb : b ∈ persons.rows.map (·.id) <;>
    simp [ha, hb]

theorem currentPersonId_eq_ok {root : String} :
    currentPersonId persons a = .ok root ↔
      a ∈ persons.rows.map (·.id) ∧ UnionFind.root (parentOf persons) a = root := by
  rw [currentPersonId, expect_eq_ok, personRootId_eq]
  split <;> simp_all

theorem Rooted.root_mem (h : Rooted persons) (ha : a ∈ persons.rows.map (·.id)) :
    UnionFind.root (parentOf persons) a ∈ persons.rows.map (·.id) := by
  cases hp : parentOf persons a with
  | none => rwa [UnionFind.root_of_none hp]
  | some m =>
    rw [UnionFind.root_of_some hp]
    exact h.present a m hp

theorem mem_familyOf (hs : parentOf persons s = none) :
    a ∈ familyOf persons s ↔
      a ∈ persons.rows.map (·.id) ∧ UnionFind.root (parentOf persons) a = s := by
  unfold familyOf
  rw [List.mem_insertionSort, UnionFind.root_eq_iff hs]
  constructor
  · intro h
    obtain ⟨person, hp, rfl⟩ := List.mem_map.mp h
    obtain ⟨hp, hin⟩ := List.mem_filter.mp hp
    have hget : persons.get? person.id = some person := Table.mem_rows.mp hp
    rw [parentOf_of_get? hget]
    exact ⟨List.mem_map_of_mem hp, of_decide_eq_true hin⟩
  · rintro ⟨ha, hroot⟩
    obtain ⟨person, hget⟩ := Table.get?_isSome.mpr ha
    obtain ⟨hp, rfl⟩ := Table.get?_eq_some.mp hget
    rw [parentOf_of_get? hget] at hroot
    exact List.mem_map.mpr ⟨person, List.mem_filter.mpr ⟨hp, decide_eq_true hroot⟩, rfl⟩

theorem personFamilyIds_eq (ha : a ∈ persons.rows.map (·.id)) :
    personFamilyIds persons a =
      .ok (familyOf persons (UnionFind.root (parentOf persons) a)) :=
  bind_eq_ok.mpr ⟨_, currentPersonId_eq_ok.mpr ⟨ha, rfl⟩, rfl⟩

theorem mem_sortedRoots {ids : List String} {r : String × String} :
    r ∈ sortedRoots persons ids ↔ r.1 ∈ ids ∧ personRootId persons r.1 = some r.2 := by
  unfold sortedRoots currentPersonIds
  rw [List.mem_insertionSort]
  constructor
  · intro h
    obtain ⟨person, hp, rfl⟩ := List.mem_map.mp h
    obtain ⟨hp, hin⟩ := List.mem_filter.mp hp
    refine ⟨of_decide_eq_true hin, ?_⟩
    rw [personRootId, Table.mem_rows.mp hp]
    rfl
  · rintro ⟨hin, hroot⟩
    obtain ⟨person, hget, hr⟩ := Option.map_eq_some_iff.mp hroot
    obtain ⟨hp, hid⟩ := Table.get?_eq_some.mp hget
    refine List.mem_map.mpr ⟨person, List.mem_filter.mpr ⟨hp, decide_eq_true ?_⟩, ?_⟩
    · rwa [hid]
    · rw [hid, hr]

theorem parentOf_joinFamilies (hs : s ∈ persons.rows.map (·.id)) :
    parentOf (joinFamilies persons s t now) = UnionFind.join (parentOf persons) s t := by
  funext a
  unfold UnionFind.join
  cases h : persons.get? a with
  | none =>
    have hne : a ≠ s := fun he => Table.get?_eq_none.mp h (he ▸ hs)
    simp [parentOf, joinFamilies, h, hne]
  | some person =>
    obtain rfl := Table.get?_key h
    rw [parentOf_of_get? h]
    by_cases hin : person.id = s ∨ person.mergedInto = some s
    · simp [parentOf, joinFamilies, h, Person.inFamily, hin]
    · simp [parentOf, joinFamilies, h, Person.inFamily, hin]

theorem parentOf_nameTarget (persons : Table Person.id) (prepared : PersonMergePreparation)
    (now : Int) : parentOf (nameTarget persons prepared now) = parentOf persons := by
  funext a
  cases h : persons.get? a with
  | none => simp [parentOf, nameTarget, h]
  | some person =>
    by_cases hid : person.id = prepared.targetId
    · simp [parentOf, nameTarget, h, hid]
    · simp [parentOf, nameTarget, h, hid]

/-- A merge of two roots moves a family, and keeps the persons rooted. -/
theorem Rooted.join (h : Rooted persons) (ht : t ∈ persons.rows.map (·.id)) (hroot : parentOf persons t = none) (hne : s ≠ t)
    {persons' : Table Person.id} (hids : persons'.rows.map (·.id) = persons.rows.map (·.id))
    (hp : parentOf persons' = UnionFind.join (parentOf persons) s t) : Rooted persons' := by
  refine ⟨by rw [hp]; exact h.flat.join hroot hne, fun id m hm => ?_⟩
  rw [hp, UnionFind.join] at hm
  rw [hids]
  split at hm
  · obtain rfl := Option.some.inj hm
    exact ht
  · exact h.present id m hm

end

/-! One table of settings. -/

section

variable {κ ν : Type} {t t₀ : ConfigTable κ ν} {group : κ → String} {s tg : String}

/-- The settings a merge depends on: the rows of both persons, and all of those to discard. -/
def ConfigTable.relevant (t : ConfigTable κ ν) (group : κ → String) (s tg : String) :
    List (SelectedConfig κ ν) :=
  t.mergeSelection s tg ((t.losing group s tg).map (·.id))

theorem mem_mergeSelection {discarded : List Nat} {x : SelectedConfig κ ν} :
    x ∈ t.mergeSelection s tg discarded ↔ ∃ row ∈ t.table.rows,
      (row.scope = .user s ∨ row.scope = .user tg) ∧
      x = ⟨row.id, row.scope, row.key, if row.scope = .user s then some row.version else none,
        if row.id ∈ discarded then some row else none⟩ := by
  unfold ConfigTable.mergeSelection
  rw [List.mem_insertionSort]
  constructor
  · intro h
    obtain ⟨row, hrow, rfl⟩ := List.mem_map.mp h
    obtain ⟨hrow, hscope⟩ := List.mem_filter.mp hrow
    exact ⟨row, hrow, of_decide_eq_true hscope, rfl⟩
  · rintro ⟨row, hrow, hscope, rfl⟩
    exact List.mem_map.mpr ⟨row, List.mem_filter.mpr ⟨hrow, decide_eq_true hscope⟩, rfl⟩

theorem mergeSelection_congr {ids ids' : List Nat} (h : ∀ i, i ∈ ids ↔ i ∈ ids') :
    t.mergeSelection s tg ids = t.mergeSelection s tg ids' := by
  unfold ConfigTable.mergeSelection
  simp only [h]

theorem mergeSelection_nodup (t : ConfigTable κ ν) (s tg : String) (discarded : List Nat) :
    ((t.mergeSelection s tg discarded).map (·.id)).Nodup := by
  unfold ConfigTable.mergeSelection
  refine ((List.perm_insertionSort _ _).map _).nodup_iff.mpr ?_
  rw [List.map_map]
  exact (List.Sublist.map ConfigRow.id List.filter_sublist).nodup t.table.nodup

theorem mem_ofUser {row : ConfigRow κ ν} {person : String} :
    row ∈ t.ofUser person ↔ row ∈ t.table.rows ∧ row.scope = .user person := by
  unfold ConfigTable.ofUser
  rw [List.mem_filter, decide_eq_true_iff]

theorem taken_iff {key : κ} :
    t.taken group tg key = true ↔
      ∃ row ∈ t.table.rows, row.scope = .user tg ∧ group row.key = group key := by
  unfold ConfigTable.taken
  rw [List.any_eq_true]
  simp only [mem_ofUser, decide_eq_true_iff, and_assoc]

/-- Whether a key is taken shows in the rows selected, whatever is to be discarded. -/
theorem taken_iff_selected (discarded : List Nat) {key : κ} :
    t.taken group tg key = true ↔
      ∃ y ∈ t.mergeSelection s tg discarded, y.scope = .user tg ∧ group y.key = group key := by
  rw [taken_iff]
  constructor
  · rintro ⟨row, hrow, hscope, hkey⟩
    exact ⟨_, mem_mergeSelection.mpr ⟨row, hrow, Or.inr hscope, rfl⟩, hscope, hkey⟩
  · rintro ⟨y, hy, hscope, hkey⟩
    obtain ⟨row, hrow, -, rfl⟩ := mem_mergeSelection.mp hy
    exact ⟨row, hrow, hscope, hkey⟩

/-- The rows of the source with one answer to whether their key is taken. -/
def ConfigTable.side (t : ConfigTable κ ν) (group : κ → String) (s tg : String) (lost : Bool) :
    List (ConfigRow κ ν) :=
  (t.ofUser s).filter fun row => decide (t.taken group tg row.key = lost)

theorem losing_eq_side (t : ConfigTable κ ν) (group : κ → String) (s tg : String) :
    t.losing group s tg = t.side group s tg true :=
  List.filter_congr fun row _ => by cases t.taken group tg row.key <;> rfl

theorem inherited_eq_side (t : ConfigTable κ ν) (group : κ → String) (s tg : String) :
    t.inherited group s tg = t.side group s tg false :=
  List.filter_congr fun row _ => by cases t.taken group tg row.key <;> rfl

theorem mem_side {lost : Bool} {row : ConfigRow κ ν} :
    row ∈ t.side group s tg lost ↔ row ∈ t.table.rows ∧ row.scope = .user s ∧
      t.taken group tg row.key = lost := by
  unfold ConfigTable.side
  rw [List.mem_filter, mem_ofUser, decide_eq_true_iff, and_assoc]

theorem mem_side_ids (discarded : List Nat) {lost : Bool} {p : Nat × Nat} :
    p ∈ (t.side group s tg lost).map idVersion ↔
      ∃ x ∈ t.mergeSelection s tg discarded, x.scope = .user s ∧ x.id = p.1 ∧
        x.version = some p.2 ∧ t.taken group tg x.key = lost := by
  constructor
  · intro h
    obtain ⟨row, hrow, rfl⟩ := List.mem_map.mp h
    obtain ⟨hmem, hscope, htaken⟩ := mem_side.mp hrow
    exact ⟨_, mem_mergeSelection.mpr ⟨row, hmem, Or.inl hscope, rfl⟩, hscope, rfl,
      if_pos hscope, htaken⟩
  · rintro ⟨x, hx, hscope, hid, hversion, htaken⟩
    obtain ⟨row, hrow, -, rfl⟩ := mem_mergeSelection.mp hx
    simp only [if_pos hscope, Option.some.injEq] at hversion
    exact List.mem_map.mpr ⟨row, mem_side.mpr ⟨hrow, hscope, htaken⟩, Prod.ext hid hversion⟩

/-- Equal selections give equal plans: the same rows move, and the same ones go. -/
theorem side_ids_congr (group : κ → String) {d d₀ : List Nat}
    (h : ∀ x, (∃ y ∈ t.mergeSelection s tg d, (y.id, y.scope, y.key, y.version) = x) ↔
      ∃ y ∈ t₀.mergeSelection s tg d₀, (y.id, y.scope, y.key, y.version) = x)
    (lost : Bool) (p : Nat × Nat) :
    p ∈ (t.side group s tg lost).map idVersion ↔ p ∈ (t₀.side group s tg lost).map idVersion := by
  have htaken : ∀ key, t.taken group tg key = t₀.taken group tg key := by
    intro key
    rw [Bool.eq_iff_iff, taken_iff_selected (s := s) d, taken_iff_selected (s := s) d₀]
    constructor
    · rintro ⟨y, hy, hscope, hkey⟩
      obtain ⟨z, hz, he⟩ := (h _).mp ⟨y, hy, rfl⟩
      simp only [Prod.mk.injEq] at he
      exact ⟨z, hz, he.2.1 ▸ hscope, he.2.2.1 ▸ hkey⟩
    · rintro ⟨y, hy, hscope, hkey⟩
      obtain ⟨z, hz, he⟩ := (h _).mpr ⟨y, hy, rfl⟩
      simp only [Prod.mk.injEq] at he
      exact ⟨z, hz, he.2.1 ▸ hscope, he.2.2.1 ▸ hkey⟩
  rw [mem_side_ids d, mem_side_ids d₀]
  constructor
  · rintro ⟨x, hx, hscope, hid, hversion, hlost⟩
    obtain ⟨z, hz, he⟩ := (h _).mp ⟨x, hx, rfl⟩
    simp only [Prod.mk.injEq] at he
    exact ⟨z, hz, he.2.1 ▸ hscope, he.1.trans hid, he.2.2.2.trans hversion,
      by rw [he.2.2.1, ← htaken]; exact hlost⟩
  · rintro ⟨x, hx, hscope, hid, hversion, hlost⟩
    obtain ⟨z, hz, he⟩ := (h _).mpr ⟨x, hx, rfl⟩
    simp only [Prod.mk.injEq] at he
    exact ⟨z, hz, he.2.1 ▸ hscope, he.1.trans hid, he.2.2.2.trans hversion,
      by rw [he.2.2.1, htaken]; exact hlost⟩

theorem side_ids_iff (h : t.relevant group s tg = t₀.relevant group s tg) (lost : Bool)
    (p : Nat × Nat) :
    p ∈ (t.side group s tg lost).map idVersion ↔ p ∈ (t₀.side group s tg lost).map idVersion := by
  unfold ConfigTable.relevant at h
  exact side_ids_congr group (by rw [h]; exact fun _ => Iff.rfl) lost p

theorem mem_losing_ids {i : Nat} :
    i ∈ (t.losing group s tg).map (·.id) ↔ ∃ v, (i, v) ∈ (t.side group s tg true).map idVersion := by
  rw [losing_eq_side]
  constructor
  · intro h
    obtain ⟨row, hrow, rfl⟩ := List.mem_map.mp h
    exact ⟨row.version, List.mem_map_of_mem hrow⟩
  · rintro ⟨v, h⟩
    obtain ⟨row, hrow, he⟩ := List.mem_map.mp h
    exact List.mem_map.mpr ⟨row, hrow, congrArg Prod.fst he⟩

/-- The rows selected for the old plan agree when all that a merge depends on does. -/
theorem mergeSelection_eq_iff :
    t.mergeSelection s tg ((t₀.losing group s tg).map (·.id)) = t₀.relevant group s tg ↔
      t.relevant group s tg = t₀.relevant group s tg := by
  have hlosing : ∀ {d : List Nat}, t.mergeSelection s tg d = t₀.relevant group s tg →
      ∀ i, i ∈ (t₀.losing group s tg).map (·.id) ↔ i ∈ (t.losing group s tg).map (·.id) := by
    intro d h i
    rw [mem_losing_ids, mem_losing_ids]
    exact exists_congr fun v => (side_ids_congr group (by rw [h]; exact fun _ => Iff.rfl) true (i, v)).symm
  constructor
  · intro h
    exact (mergeSelection_congr (hlosing h)).symm.trans h
  · intro h
    exact (mergeSelection_congr (hlosing h)).trans h

/-- Rows with the same ids, each found as it is, are the same rows. -/
theorem eq_of_found {xs ys : List (SelectedConfig κ ν)} (hnd : (ys.map (·.id)).Nodup)
    (hids : xs.map (·.id) = ys.map (·.id))
    (hfound : ∀ x ∈ xs, ∃ y, ys.find? (fun y => decide (y.id = x.id)) = some y ∧ x = y) :
    xs = ys := by
  refine List.ext_getElem (by simpa using congrArg List.length hids) fun i hx hy => ?_
  obtain ⟨y, hy', hxy⟩ := hfound _ (List.getElem_mem hx)
  have hmem := List.mem_of_find?_eq_some hy'
  have hid : xs[i].id = ys[i].id := by
    have hi := congrArg (fun l => l[i]?) hids
    simpa [hx, hy] using hi
  have hyid : y.id = ys[i].id := hxy ▸ hid
  rw [hxy]
  exact List.inj_on_of_nodup_map hnd hmem (List.getElem_mem hy) hyid

theorem asPlanned_iff [DecidableEq κ] [DecidableEq ν] (model : ConfigModel κ ν) :
    t.asPlanned s tg (t₀.plan model s tg) = true ↔
      t.relevant model.group s tg = t₀.relevant model.group s tg := by
  rw [← mergeSelection_eq_iff]
  have hdiscarded : (t₀.plan model s tg).discarded = (t₀.losing model.group s tg).map (·.id) := by
    simp [ConfigTable.plan, ConfigPlan.discarded, idVersion]
  have hselection : (t₀.plan model s tg).selection = t₀.relevant model.group s tg := by
    simp [ConfigTable.plan, ConfigTable.relevant, idVersion, Function.comp_def]
  unfold ConfigTable.asPlanned
  rw [hdiscarded, hselection]
  simp only [Bool.and_eq_true, decide_eq_true_eq, List.all_eq_true, Option.any_eq_true]
  constructor
  · rintro ⟨hids, hfound⟩
    exact eq_of_found (mergeSelection_nodup t₀ s tg _) hids hfound
  · intro h
    rw [h]
    refine ⟨rfl, fun x hx => ?_⟩
    obtain ⟨y, hy⟩ := Option.isSome_iff_exists.mp
      (List.find?_isSome (p := fun y => decide (y.id = x.id)).mpr ⟨x, hx, by simp⟩)
    have hid : y.id = x.id := by simpa using List.find?_some hy
    exact ⟨y, hy, (List.inj_on_of_nodup_map (mergeSelection_nodup t₀ s tg _)
      (List.mem_of_find?_eq_some hy) hx hid).symm⟩

/-- What a merge leaves of the settings of two persons. -/
structure Moved (t t' : ConfigTable κ ν) (group : κ → String) (s tg : String) : Prop where
  inherited : ∀ r ∈ t.table.rows, r.scope = .user s → t.taken group tg r.key = false →
    { r with scope := .user tg } ∈ t'.table.rows
  discarded : ∀ r ∈ t.table.rows, r.scope = .user s → t.taken group tg r.key = true →
    ∀ r' ∈ t'.table.rows, r'.id ≠ r.id
  kept : ∀ r ∈ t.table.rows, r.scope ≠ .user s → r ∈ t'.table.rows
  only : ∀ r' ∈ t'.table.rows, r'.scope ≠ .user s ∧ (r' ∈ t.table.rows ∨
    ∃ r ∈ t.table.rows, r.scope = .user s ∧ r' = { r with scope := .user tg })

theorem named_iff (model : ConfigModel κ ν)
    (h : t.relevant model.group s tg = t₀.relevant model.group s tg) (lost : Bool)
    {row : ConfigRow κ ν} (hrow : row ∈ t.table.rows) :
    named s ((t₀.side model.group s tg lost).map idVersion) row = true ↔
      row.scope = .user s ∧ t.taken model.group tg row.key = lost := by
  unfold named
  rw [decide_eq_true_iff, ← side_ids_iff h]
  constructor
  · rintro ⟨hin, hscope⟩
    obtain ⟨r, hr, he⟩ := List.mem_map.mp hin
    obtain ⟨hmem, -, htaken⟩ := mem_side.mp hr
    obtain rfl := List.inj_on_of_nodup_map t.table.nodup hmem hrow (congrArg Prod.fst he)
    exact ⟨hscope, htaken⟩
  · rintro ⟨hscope, htaken⟩
    exact ⟨List.mem_map_of_mem (mem_side.mpr ⟨hrow, hscope, htaken⟩), hscope⟩

theorem filter_named (model : ConfigModel κ ν)
    (h : t.relevant model.group s tg = t₀.relevant model.group s tg) (lost : Bool) :
    t.table.rows.filter (named s ((t₀.side model.group s tg lost).map idVersion)) =
      t.side model.group s tg lost := by
  have hside : t.side model.group s tg lost = t.table.rows.filter fun row =>
      decide (t.taken model.group tg row.key = lost) && decide (row.scope = .user s) :=
    List.filter_filter
  rw [hside]
  refine List.filter_congr fun row hrow => ?_
  rw [Bool.eq_iff_iff, named_iff model h lost hrow]
  simp [and_comm]

theorem length_side (model : ConfigModel κ ν)
    (h : t.relevant model.group s tg = t₀.relevant model.group s tg) (lost : Bool) :
    (t.side model.group s tg lost).length =
      ((t₀.side model.group s tg lost).map idVersion).length := by
  have hnd : ∀ t : ConfigTable κ ν, ((t.side model.group s tg lost).map idVersion).Nodup := by
    intro t
    have hids : ((t.side model.group s tg lost).map (·.id)).Nodup :=
      ((List.filter_sublist.trans List.filter_sublist).map _).nodup t.table.nodup
    refine List.Nodup.of_map Prod.fst ?_
    rwa [List.map_map]
  have hperm := (List.perm_ext_iff_of_nodup (hnd t) (hnd t₀)).mpr
    (side_ids_iff h lost)
  rw [← hperm.length_eq, List.length_map]

/-- A row that arrives meets no row of the target under its key. -/
theorem onePerKey_move {go : ConfigRow κ ν → Bool}
    (hgo : ∀ r ∈ t.table.rows, go r = true →
      r.scope = .user s ∧ t.taken group tg r.key = false) :
    OnePerKey (t.table.update go fun row => { row with scope := .user tg }).rows := by
  let place (r : ConfigRow κ ν) : ConfigRow κ ν :=
    if go r then { r with scope := .user tg } else r
  have hkeys : ∀ r : ConfigRow κ ν, (place r).key = r.key := by
    intro r
    simp only [place]
    split <;> rfl
  have hmeets : ∀ a ∈ t.table.rows, ∀ b ∈ t.table.rows, go a = true → go b = false →
      (place a).scope = (place b).scope → a.key ≠ b.key := by
    intro a ha b hb hga hgb hscope hkey
    have htaken := (hgo a ha hga).2
    simp only [place, hga, hgb, if_true, Bool.false_eq_true, if_false] at hscope
    rw [taken_iff.mpr ⟨b, hb, hscope.symm, congrArg group hkey.symm⟩] at htaken
    cases htaken
  intro r hr r' hr' hscope hkey
  obtain ⟨a, ha, rfl⟩ := List.mem_map.mp hr
  obtain ⟨b, hb, rfl⟩ := List.mem_map.mp hr'
  have hab : a.key = b.key := (hkeys a).symm.trans (hkey.trans (hkeys b))
  cases hga : go a with
  | true =>
    cases hgb : go b with
    | true =>
      have hscopes := (hgo a ha hga).1.trans (hgo b hb hgb).1.symm
      rw [t.unique a ha b hb hscopes hab]
    | false => exact (hmeets a ha b hb hga hgb hscope hab).elim
  | false =>
    cases hgb : go b with
    | true => exact (hmeets b hb a ha hgb hga hscope.symm hab.symm).elim
    | false =>
      simp only [hga, hgb, Bool.false_eq_true, if_false] at hscope ⊢
      exact t.unique a ha b hb hscope hab

/-- A plan that still matches applies: no row is missing and no key is doubled. -/
theorem apply_ok [DecidableEq κ] [DecidableEq ν] (model : ConfigModel κ ν) (hne : s ≠ tg)
    (h : t.relevant model.group s tg = t₀.relevant model.group s tg) :
    ∃ t', t.apply s tg (t₀.plan model s tg) = .ok t' ∧ Moved t t' model.group s tg := by
  have hinherited : (t₀.plan model s tg).inherited =
      (t₀.side model.group s tg false).map idVersion := by
    rw [← inherited_eq_side]
    rfl
  have hlosing : (t₀.plan model s tg).losing = (t₀.side model.group s tg true).map idVersion := by
    rw [← losing_eq_side]
    rfl
  have hgo := fun r (hr : r ∈ t.table.rows) => named_iff model h false hr
  have hout := fun r (hr : r ∈ t.table.rows) => named_iff model h true hr
  have hcountGo := (congrArg List.length (filter_named model h false)).trans (length_side model h false)
  have hcountOut := (congrArg List.length (filter_named model h true)).trans (length_side model h true)
  generalize (t₀.side model.group s tg false).map idVersion = going at *
  generalize (t₀.side model.group s tg true).map idVersion = losing at *
  have hunique := onePerKey_move fun r hr hg => (hgo r hr).mp hg
  let place (r : ConfigRow κ ν) : ConfigRow κ ν :=
    if named s going r then { r with scope := .user tg } else r
  have htg : ConfigScope.user tg ≠ .user s := fun he => hne (ConfigScope.user.inj he).symm
  -- the rows to discard are the same after the others have moved
  have hstays : ∀ r ∈ t.table.rows, named s losing (place r) = named s losing r := by
    intro r hr
    cases hg : named s going r with
    | false => simp only [place, hg, Bool.false_eq_true, if_false]
    | true =>
      have htaken := ((hgo r hr).mp hg).2
      have hno : named s losing r = false := by
        rw [← Bool.not_eq_true, hout r hr, htaken]
        simp
      rw [hno]
      simp only [place, hg, if_true]
      simp [named, htg]
  have hcount : ((t.table.rows.map place).filter (named s losing)).length = losing.length := by
    rw [List.filter_map, List.length_map, ← hcountOut]
    exact congrArg List.length (List.filter_congr hstays)
  unfold ConfigTable.apply
  rw [hinherited, hlosing]
  refine ⟨_, bind_eq_ok.mpr ⟨_, (dif_pos hunique).trans (if_pos hcountGo), if_pos hcount⟩, ?_⟩
  have hrows : ∀ {r'}, r' ∈ ((t.table.rows.map place).filter fun r => !named s losing r) ↔
      ∃ r ∈ t.table.rows, named s losing r = false ∧ r' = place r := by
    intro r'
    rw [List.mem_filter, List.mem_map]
    constructor
    · rintro ⟨⟨r, hr, rfl⟩, hn⟩
      rw [hstays r hr] at hn
      exact ⟨r, hr, by simpa using hn, rfl⟩
    · rintro ⟨r, hr, hn, rfl⟩
      exact ⟨⟨r, hr, rfl⟩, by rw [hstays r hr, hn]; rfl⟩
  refine ⟨fun r hr hscope htaken => ?_, fun r hr hscope htaken r' hr' hid => ?_,
    fun r hr hscope => ?_, fun r' hr' => ?_⟩
  · have hg := (hgo r hr).mpr ⟨hscope, htaken⟩
    refine hrows.mpr ⟨r, hr, ?_, (if_pos hg).symm⟩
    rw [← Bool.not_eq_true, hout r hr, htaken]
    simp
  · obtain ⟨q, hq, hn, rfl⟩ := hrows.mp hr'
    have hqid : (place q).id = q.id := by
      simp only [place]
      split <;> rfl
    obtain rfl := List.inj_on_of_nodup_map t.table.nodup hq hr (hqid.symm.trans hid)
    rw [(hout q hq).mpr ⟨hscope, htaken⟩] at hn
    cases hn
  · have hg : ¬ named s going r = true := fun hg => hscope ((hgo r hr).mp hg).1
    refine hrows.mpr ⟨r, hr, ?_, (if_neg hg).symm⟩
    rw [← Bool.not_eq_true, hout r hr]
    exact fun ho => hscope ho.1
  · obtain ⟨r, hr, hn, rfl⟩ := hrows.mp hr'
    by_cases hscope : r.scope = .user s
    · have htaken : t.taken model.group tg r.key = false := by
        rw [← Bool.not_eq_true]
        intro htaken
        rw [(hout r hr).mpr ⟨hscope, htaken⟩] at hn
        cases hn
      have hplace : place r = { r with scope := .user tg } :=
        if_pos ((hgo r hr).mpr ⟨hscope, htaken⟩)
      exact ⟨by rw [hplace]; exact htg, Or.inr ⟨r, hr, hscope, hplace⟩⟩
    · have hplace : place r = r := if_neg fun hg => hscope ((hgo r hr).mp hg).1
      exact ⟨by rwa [hplace], Or.inl (by rwa [hplace])⟩

end

/-! One merge. -/

/-- The alias under which the source already keeps its name. -/
def sourceAliasOf (db : IdentityStore) (s : String) : Option Nat :=
  (db.persons.get? s).bind fun person => aliasOf db.aliases s person.displayName

/-- What a merge of two roots was prepared from is what it finds. -/
structure Unchanged (models : ConfigModels) (seen db : IdentityStore) (s tg : String) : Prop where
  family : familyOf db.persons s = familyOf seen.persons s
  people : peopleOf db.persons [s, tg] = peopleOf seen.persons [s, tg]
  sourceAlias : sourceAliasOf db s = sourceAliasOf seen s
  runtime : db.runtimeConfig.relevant models.runtime.group s tg =
    seen.runtimeConfig.relevant models.runtime.group s tg
  plugins : db.pluginConfig.relevant models.plugins.group s tg =
    seen.pluginConfig.relevant models.plugins.group s tg

variable {redact : Json → String → Json} {seen db db' : IdentityStore} {src dst : String}
  {prepared : PersonMergePreparation} {now : Int} {actorId root : String}

/-- The plan of a merge between two roots. -/
theorem prepare_cases (h : preparePersonMerge redact seen src dst = .ok prepared) :
    personRootId seen.persons src = some prepared.sourceId ∧
    personRootId seen.persons dst = some prepared.targetId ∧
    prepared.roots = sortedRoots seen.persons [src, dst] ∧
    (prepared.sourceId ≠ prepared.targetId → ∃ source,
      seen.persons.get? prepared.sourceId = some source ∧
      prepared.sourceName = source.displayName ∧
      prepared.members = familyOf seen.persons prepared.sourceId ∧
      prepared.people = peopleOf seen.persons [prepared.sourceId, prepared.targetId] ∧
      prepared.sourceAlias = sourceAliasOf seen prepared.sourceId ∧
      prepared.runtime = seen.runtimeConfig.plan (configModels redact).runtime
        prepared.sourceId prepared.targetId ∧
      prepared.plugins = seen.pluginConfig.plan (configModels redact).plugins
        prepared.sourceId prepared.targetId) := by
  unfold preparePersonMerge at h
  obtain ⟨s, hs, h⟩ := bind_eq_ok.mp h
  obtain ⟨tg, ht, h⟩ := bind_eq_ok.mp h
  rw [currentPersonId, expect_eq_ok] at hs ht
  by_cases hst : s = tg
  · rw [if_pos hst] at h
    obtain rfl := pure_eq_ok.mp h
    exact ⟨hs, ht, rfl, fun hne => absurd hst hne⟩
  · rw [if_neg hst] at h
    obtain ⟨source, hsource, h⟩ := bind_eq_ok.mp h
    obtain ⟨target, htarget, h⟩ := bind_eq_ok.mp h
    obtain rfl := pure_eq_ok.mp h
    rw [expect_eq_ok] at hsource
    refine ⟨hs, ht, rfl, fun _ => ⟨source, hsource, rfl, rfl, rfl, ?_, rfl, rfl⟩⟩
    rw [sourceAliasOf, hsource]
    rfl

theorem mem_peopleOf {persons : Table Person.id} {ids : List String} {x : String × String × Bool} :
    x ∈ peopleOf persons ids ↔ x.1 ∈ ids ∧ ∃ person, persons.get? x.1 = some person ∧
      x.2 = (person.displayName, person.isSuperuser) := by
  unfold peopleOf
  rw [List.mem_insertionSort]
  constructor
  · intro h
    obtain ⟨person, hp, rfl⟩ := List.mem_map.mp h
    obtain ⟨hp, hin⟩ := List.mem_filter.mp hp
    exact ⟨of_decide_eq_true hin, person, Table.mem_rows.mp hp, rfl⟩
  · rintro ⟨hin, person, hget, hx⟩
    obtain ⟨hp, hid⟩ := Table.get?_eq_some.mp hget
    refine List.mem_map.mpr ⟨person, List.mem_filter.mpr ⟨hp, decide_eq_true (hid ▸ hin)⟩, ?_⟩
    exact Prod.ext hid hx.symm

/-- The same people have the same names. -/
theorem name_of_people {persons persons₀ : Table Person.id} {ids : List String} {s : String}
    {person : Person} (h : peopleOf persons ids = peopleOf persons₀ ids) (hs : s ∈ ids)
    (hget : persons₀.get? s = some person) :
    ∃ person', persons.get? s = some person' ∧ person'.displayName = person.displayName := by
  have hmem : (s, person.displayName, person.isSuperuser) ∈ peopleOf persons ids := by
    rw [h]
    exact mem_peopleOf.mpr ⟨hs, person, hget, rfl⟩
  obtain ⟨-, person', hget', hx⟩ := mem_peopleOf.mp hmem
  exact ⟨person', hget', (Prod.mk.inj hx).1.symm⟩

theorem AliasTable.add_ok {t : AliasTable} {s name : String}
    (h : aliasOf t s name = none) (hname : name ≠ "") : ∃ t', t.add s name now = .ok t' := by
  unfold AliasTable.add
  refine ⟨_, dif_pos ?_⟩
  have hfree : ∀ r ∈ t.table.rows, ¬ (r.personId = s ∧ r.spaceId = none ∧ r.aliasName = name) := by
    rw [aliasOf, if_neg hname, Option.map_eq_none_iff, List.find?_eq_none] at h
    intro r hr
    simpa using h r hr
  intro r hr r' hr' hperson hspace halias
  rcases Table.mem_insert.mp hr with hr | ⟨rfl, -⟩ <;>
    rcases Table.mem_insert.mp hr' with hr' | ⟨rfl, -⟩
  · exact t.unique r hr r' hr' hperson hspace halias
  · exact absurd ⟨hperson, hspace, halias⟩ (hfree r hr)
  · exact absurd ⟨hperson.symm, hspace.symm, halias.symm⟩ (hfree r' hr')
  · rfl

theorem keepName_ok (db : IdentityStore) (prepared : PersonMergePreparation) (now : Int) :
    ∃ aliases, keepName db.aliases prepared
      (aliasOf db.aliases prepared.sourceId prepared.sourceName) now = .ok aliases := by
  unfold keepName
  split
  · next h => exact AliasTable.add_ok h.2 h.1
  · exact ⟨_, rfl⟩

/-- The roots named by a plan are those of the two persons, as long as these are what it read. -/
theorem roots_current (hprep : preparePersonMerge redact seen src dst = .ok prepared)
    (hroots : sortedRoots db.persons [src, dst] = sortedRoots seen.persons [src, dst]) :
    personRootId db.persons src = some prepared.sourceId ∧
      personRootId db.persons dst = some prepared.targetId := by
  obtain ⟨hs, ht, -⟩ := prepare_cases hprep
  have hback : ∀ {a r : String}, a ∈ [src, dst] → personRootId seen.persons a = some r →
      personRootId db.persons a = some r := by
    intro a r ha hr
    have hmem : (a, r) ∈ sortedRoots db.persons [src, dst] := by
      rw [hroots]
      exact mem_sortedRoots.mpr ⟨ha, hr⟩
    exact (mem_sortedRoots.mp hmem).2
  exact ⟨hback (by simp) hs, hback (by simp) ht⟩

theorem mem_of_rootId {persons : Table Person.id} {a r : String}
    (h : personRootId persons a = some r) :
    a ∈ persons.rows.map (·.id) ∧ UnionFind.root (parentOf persons) a = r :=
  currentPersonId_eq_ok.mp (expect_eq_ok.mpr h)

/-- What a merge writes: the joined families and the settings moved. -/
structure Merged (models : ConfigModels) (db db' : IdentityStore) (s tg : String) : Prop where
  ids : db'.persons.rows.map (·.id) = db.persons.rows.map (·.id)
  parents : parentOf db'.persons = UnionFind.join (parentOf db.persons) s tg
  runtime : Moved db.runtimeConfig db'.runtimeConfig models.runtime.group s tg
  plugins : Moved db.pluginConfig db'.pluginConfig models.plugins.group s tg

theorem merge_ok (now : Int) (actorId : String)
    (hprep : preparePersonMerge redact seen src dst = .ok prepared)
    (hrooted : Rooted db.persons)
    (hroots : sortedRoots db.persons [src, dst] = sortedRoots seen.persons [src, dst])
    (hsame : prepared.sourceId ≠ prepared.targetId →
      Unchanged (configModels redact) seen db prepared.sourceId prepared.targetId) :
    ∃ db', mergePersons db src dst prepared now actorId = .ok (db', prepared.targetId) ∧
      (prepared.sourceId = prepared.targetId → db' = db) ∧
      (prepared.sourceId ≠ prepared.targetId →
        Merged (configModels redact) db db' prepared.sourceId prepared.targetId) := by
  obtain ⟨hs, -⟩ := roots_current hprep hroots
  obtain ⟨-, -, hprepared, hplan⟩ := prepare_cases hprep
  by_cases hst : prepared.sourceId = prepared.targetId
  · unfold mergePersons
    refine ⟨db, bind_eq_ok.mpr ⟨(), require_eq_ok.mpr (hroots.trans hprepared.symm), ?_⟩,
      fun _ => rfl, fun hne => absurd hst hne⟩
    rw [if_pos hst]
    rfl
  · obtain ⟨source, hsource, hname, hmembers, hpeople, halias, hruntime, hplugins⟩ := hplan hst
    have hun := hsame hst
    obtain ⟨hsrc, hroot⟩ := mem_of_rootId hs
    have hsmem : prepared.sourceId ∈ db.persons.rows.map (·.id) := hroot ▸ hrooted.root_mem hsrc
    have hstop : UnionFind.root (parentOf db.persons) prepared.sourceId = prepared.sourceId := by
      rw [← hroot]
      exact hrooted.flat.root_root src
    have hfamily : personFamilyIds db.persons prepared.sourceId = .ok prepared.members := by
      rw [personFamilyIds_eq hsmem, hstop, hun.family, hmembers]
    obtain ⟨source', hsource', hname'⟩ := name_of_people hun.people (by simp) hsource
    have hfound : aliasOf db.aliases prepared.sourceId prepared.sourceName =
        prepared.sourceAlias := by
      rw [halias, ← hun.sourceAlias, sourceAliasOf, hsource', hname, ← hname']
      rfl
    obtain ⟨runtime, hr, hmoved⟩ := apply_ok (configModels redact).runtime hst hun.runtime
    obtain ⟨plugins, hp, hmoved'⟩ := apply_ok (configModels redact).plugins hst hun.plugins
    obtain ⟨aliases, ha⟩ := keepName_ok db prepared now
    have hrun : mergePersons db src dst prepared now actorId = .ok (
        { persons := nameTarget
            (joinFamilies db.persons prepared.sourceId prepared.targetId now) prepared now
          aliases := aliases
          runtimeConfig := runtime
          pluginConfig := plugins
          adminEvents := db.adminEvents ++
            [{ actorUserId := actorId
               capability := "identity.person.merge"
               operation := "identity.person.merge"
               targetType := "person"
               targetId := prepared.targetId
               beforeJson := prepared.beforeJson
               afterJson := prepared.afterJson
               createdAt := now }] },
        prepared.targetId) := by
      unfold mergePersons
      refine bind_eq_ok.mpr ⟨(), require_eq_ok.mpr (hroots.trans hprepared.symm), ?_⟩
      rw [if_neg hst]
      refine bind_eq_ok.mpr ⟨_, hfamily, ?_⟩
      refine bind_eq_ok.mpr ⟨(), require_eq_ok.mpr rfl, ?_⟩
      refine bind_eq_ok.mpr ⟨(), require_eq_ok.mpr (hun.people.trans hpeople.symm), ?_⟩
      refine bind_eq_ok.mpr ⟨(), require_eq_ok.mpr hfound, ?_⟩
      rw [hruntime, hplugins]
      refine bind_eq_ok.mpr ⟨(), require_eq_ok.mpr ((asPlanned_iff _).mpr hun.runtime), ?_⟩
      refine bind_eq_ok.mpr ⟨(), require_eq_ok.mpr ((asPlanned_iff _).mpr hun.plugins), ?_⟩
      refine bind_eq_ok.mpr ⟨_, hr, ?_⟩
      refine bind_eq_ok.mpr ⟨_, hp, ?_⟩
      exact bind_eq_ok.mpr ⟨_, ha, rfl⟩
    refine ⟨_, hrun, fun he => absurd he hst, fun _ => ⟨?_, ?_, hmoved, hmoved'⟩⟩
    · simp only [nameTarget, joinFamilies, Table.keys_update]
    · exact (parentOf_nameTarget _ _ _).trans (parentOf_joinFamilies hsmem)

theorem unchanged_of_merge (hprep : preparePersonMerge redact seen src dst = .ok prepared)
    (hrooted : Rooted db.persons)
    (h : mergePersons db src dst prepared now actorId = .ok (db', root)) :
    sortedRoots db.persons [src, dst] = sortedRoots seen.persons [src, dst] ∧
      (prepared.sourceId ≠ prepared.targetId →
        Unchanged (configModels redact) seen db prepared.sourceId prepared.targetId) := by
  obtain ⟨-, -, hprepared, hplan⟩ := prepare_cases hprep
  unfold mergePersons at h
  obtain ⟨u, hroots, h⟩ := bind_eq_ok.mp h
  rw [require_eq_ok, hprepared] at hroots
  refine ⟨hroots, fun hst => ?_⟩
  obtain ⟨source, hsource, hname, hmembers, hpeople, halias, hruntime, hplugins⟩ := hplan hst
  rw [if_neg hst] at h
  simp only [bind_eq_ok, require_eq_ok] at h
  obtain ⟨members, hm, -, hmem, -, hpeople', -, halias', -, hruntime', -, hplugins', -⟩ := h
  obtain ⟨hs, -⟩ := roots_current hprep hroots
  obtain ⟨hsrc, hroot⟩ := mem_of_rootId hs
  have hsmem : prepared.sourceId ∈ db.persons.rows.map (·.id) := hroot ▸ hrooted.root_mem hsrc
  have hstop : UnionFind.root (parentOf db.persons) prepared.sourceId = prepared.sourceId := by
    rw [← hroot]
    exact hrooted.flat.root_root src
  rw [personFamilyIds_eq hsmem, hstop] at hm
  have hpeople'' := hpeople'.trans hpeople
  obtain ⟨source', hsource', hname'⟩ := name_of_people hpeople'' (by simp) hsource
  rw [hruntime] at hruntime'
  rw [hplugins] at hplugins'
  refine ⟨(Except.ok.inj hm).trans (hmem.trans hmembers), hpeople'', ?_,
    (asPlanned_iff _).mp hruntime', (asPlanned_iff _).mp hplugins'⟩
  rw [← halias, ← halias', sourceAliasOf, hsource', hname, ← hname']
  rfl

/-! Runs. -/

/-- A plan, and the state it was read from. -/
structure Plan where
  source : String
  target : String
  seen : IdentityStore
  prepared : PersonMergePreparation

/-- The committed state, the plans read so far, and the pairs whose merge succeeded. -/
structure Merges where
  db : IdentityStore
  plans : List Plan := []
  joined : List (String × String) := []

inductive MergeAction
  | prepare (plan : Plan)
  | merge (plan : Plan) (now : Int) (actorId : String)
  | write (db : IdentityStore)

/-- A write of anyone else: it may change names, flags, aliases and settings, and add persons, but
never where a person is merged into. -/
structure OtherWrite (db db' : IdentityStore) : Prop where
  kept : ∀ a ∈ db.persons.rows.map (·.id), a ∈ db'.persons.rows.map (·.id)
  parents : parentOf db'.persons = parentOf db.persons

/-- A merge that raises rolls back. -/
def Merges.merge (w : Merges) (plan : Plan) (now : Int) (actorId : String) : Merges :=
  match mergePersons w.db plan.source plan.target plan.prepared now actorId with
  | .ok (db, _) => { w with db := db, joined := (plan.source, plan.target) :: w.joined }
  | .error _ => w

def MergeStep (redact : Json → String → Json) (w : Merges) (a : MergeAction) (w' : Merges) : Prop :=
  match a with
  | .prepare plan => plan.seen = w.db ∧
      preparePersonMerge redact w.db plan.source plan.target = .ok plan.prepared ∧
      w' = { w with plans := plan :: w.plans }
  | .merge plan now actorId => plan ∈ w.plans ∧ w' = w.merge plan now actorId
  | .write db => OtherWrite w.db db ∧ w' = { w with db := db }

/-- The pairs merged so far, as a relation. -/
def Merges.Joined (w : Merges) (a b : String) : Prop :=
  (a, b) ∈ w.joined

/-- Persons are rooted, their classes are the closure of the merges, and every plan was read from
a state. -/
structure MergesInv (redact : Json → String → Json) (w : Merges) : Prop where
  rooted : Rooted w.db.persons
  closure : UnionFind.Closure (parentOf w.db.persons) w.Joined
  plans : ∀ plan ∈ w.plans,
    preparePersonMerge redact plan.seen plan.source plan.target = .ok plan.prepared

theorem MergesInv.merge {w : Merges} (h : MergesInv redact w) {plan : Plan} (hp : plan ∈ w.plans) :
    MergesInv redact (w.merge plan now actorId) := by
  have hprep := h.plans plan hp
  unfold Merges.merge
  split
  · next db root hm =>
    obtain ⟨hroots, hsame⟩ := unchanged_of_merge hprep h.rooted hm
    obtain ⟨hs, ht⟩ := roots_current hprep hroots
    obtain ⟨hsrc, hsroot⟩ := mem_of_rootId hs
    obtain ⟨hdst, htroot⟩ := mem_of_rootId ht
    obtain ⟨db', hm', hsame', hmerged⟩ := merge_ok now actorId hprep h.rooted hroots hsame
    obtain rfl : db' = db := (Prod.mk.inj (Except.ok.inj (hm'.symm.trans hm))).1
    have hjoined : ∀ u v, (w.Joined u v ∨ u = plan.source ∧ v = plan.target) ↔
        (u, v) ∈ (plan.source, plan.target) :: w.joined := by
      intro u v
      rw [List.mem_cons, Prod.mk.injEq, or_comm]
      rfl
    have hclosure : ∀ {parent}, UnionFind.Closure parent
        (fun u v => w.Joined u v ∨ u = plan.source ∧ v = plan.target) →
        UnionFind.Closure parent fun u v => (u, v) ∈ (plan.source, plan.target) :: w.joined := by
      intro parent hc
      simpa only [hjoined] using hc
    by_cases hst : plan.prepared.sourceId = plan.prepared.targetId
    · rw [hsame' hst]
      exact ⟨h.rooted, hclosure (h.closure.pair (hsroot.trans (hst.trans htroot.symm))), h.plans⟩
    · have hm := hmerged hst
      have hstop : parentOf w.db.persons plan.prepared.sourceId = none :=
        hsroot ▸ h.rooted.flat.parent_root plan.source
      have httop : parentOf w.db.persons plan.prepared.targetId = none :=
        htroot ▸ h.rooted.flat.parent_root plan.target
      refine ⟨h.rooted.join (htroot ▸ h.rooted.root_mem hdst) httop hst hm.ids hm.parents,
        hclosure ?_, h.plans⟩
      rw [hm.parents]
      exact h.closure.join hstop httop hsroot htroot
  · exact h

theorem MergesInv.step {w w' : Merges} {a : MergeAction} (h : MergesInv redact w)
    (hs : MergeStep redact w a w') : MergesInv redact w' := by
  cases a with
  | prepare plan =>
    obtain ⟨hseen, hprep, rfl⟩ := hs
    refine ⟨h.rooted, h.closure, fun p hp => ?_⟩
    rcases List.mem_cons.mp hp with rfl | hp
    · rw [hseen]
      exact hprep
    · exact h.plans p hp
  | merge plan now actorId =>
    obtain ⟨hp, rfl⟩ := hs
    exact h.merge hp
  | write db =>
    obtain ⟨hw, rfl⟩ := hs
    refine ⟨⟨?_, fun id m hm => ?_⟩, ?_, h.plans⟩
    · rw [hw.parents]
      exact h.rooted.flat
    · rw [hw.parents] at hm
      exact hw.kept m (h.rooted.present id m hm)
    · rw [hw.parents]
      exact h.closure

theorem MergesInv.start {db : IdentityStore}
    (h : ∀ person ∈ db.persons.rows, person.mergedInto = none) :
    MergesInv redact { db := db } := by
  refine ⟨.of_roots h, ?_, nofun⟩
  have hjoined : Merges.Joined { db := db } = fun _ _ => False := by
    funext a b
    simp [Merges.Joined]
  rw [hjoined]
  exact UnionFind.closure_of_none (parentOf_of_roots h)

/-- Whatever the merges, and whatever is written between a plan and its merge: persons are roots or
point at one, the families are the classes of the pairs merged, a merge raises exactly when what
its plan was read from has changed, and every setting of the source moves or gives way. -/
theorem merges_flat {db : IdentityStore}
    (hstart : ∀ person ∈ db.persons.rows, person.mergedInto = none) {as : List MergeAction}
    {w : Merges} (hr : Run (MergeStep redact) { db := db } as w) :
    (∀ person ∈ w.db.persons.rows, ∀ m, person.mergedInto = some m →
      ∃ root ∈ w.db.persons.rows, root.id = m ∧ root.mergedInto = none) ∧
    (∀ a b, samePersonId w.db.persons a b = true ↔
      a ∈ w.db.persons.rows.map (·.id) ∧ b ∈ w.db.persons.rows.map (·.id) ∧
        Relation.EqvGen w.Joined a b) ∧
    (∀ a ∈ w.db.persons.rows.map (·.id), ∃ root family,
      currentPersonId w.db.persons a = .ok root ∧ parentOf w.db.persons root = none ∧
      root ∈ family ∧ personFamilyIds w.db.persons a = .ok family ∧
      ∀ b, b ∈ family ↔ b ∈ w.db.persons.rows.map (·.id) ∧ Relation.EqvGen w.Joined a b) ∧
    ∀ plan ∈ w.plans, ∀ now actorId,
      ((∃ e, mergePersons w.db plan.source plan.target plan.prepared now actorId = .error e) ↔
        ¬ (sortedRoots w.db.persons [plan.source, plan.target] =
            sortedRoots plan.seen.persons [plan.source, plan.target] ∧
          (plan.prepared.sourceId ≠ plan.prepared.targetId →
            Unchanged (configModels redact) plan.seen w.db
              plan.prepared.sourceId plan.prepared.targetId))) ∧
      ∀ db' root, mergePersons w.db plan.source plan.target plan.prepared now actorId =
          .ok (db', root) →
        (samePersonId w.db.persons plan.source plan.target = true → db' = w.db) ∧
        (samePersonId w.db.persons plan.source plan.target = false →
          Moved w.db.runtimeConfig db'.runtimeConfig (fun key => key)
            plan.prepared.sourceId plan.prepared.targetId ∧
          Moved w.db.pluginConfig db'.pluginConfig (fun key => key.1)
            plan.prepared.sourceId plan.prepared.targetId) := by
  have hinv : MergesInv redact w :=
    hr.invariant (fun _ _ _ h hs => h.step hs) (MergesInv.start hstart)
  refine ⟨fun person hp m hm => ?_, fun a b => ?_, fun a ha => ?_, fun plan hplan now actorId => ?_⟩
  · have hparent : parentOf w.db.persons person.id = some m := by
      rw [parentOf_of_get? (Table.mem_rows.mp hp), hm]
    obtain ⟨root, hroot, hid⟩ := List.mem_map.mp (hinv.rooted.present _ _ hparent)
    refine ⟨root, hroot, hid, ?_⟩
    rw [← parentOf_of_get? (Table.mem_rows.mp hroot), hid]
    exact hinv.rooted.flat _ _ hparent
  · rw [samePersonId_iff, hinv.closure a b]
  · have htop := hinv.rooted.flat.parent_root a
    have hmem := hinv.rooted.root_mem ha
    refine ⟨_, _, currentPersonId_eq_ok.mpr ⟨ha, rfl⟩, htop,
      (mem_familyOf htop).mpr ⟨hmem, hinv.rooted.flat.root_root a⟩, personFamilyIds_eq ha,
      fun b => ?_⟩
    rw [mem_familyOf htop, ← hinv.closure a b]
    simp only [eq_comm]
  · have hprep := hinv.plans plan hplan
    constructor
    · constructor
      · rintro ⟨e, he⟩ ⟨hroots, hsame⟩
        obtain ⟨db', hok, -⟩ := merge_ok now actorId hprep hinv.rooted hroots hsame
        rw [he] at hok
        cases hok
      · intro hchanged
        cases hm : mergePersons w.db plan.source plan.target plan.prepared now actorId with
        | error e => exact ⟨e, rfl⟩
        | ok r => exact absurd (unchanged_of_merge hprep hinv.rooted hm) hchanged
    · intro db' root hm
      obtain ⟨hroots, hsame⟩ := unchanged_of_merge hprep hinv.rooted hm
      obtain ⟨db₁, hm₁, hone, htwo⟩ := merge_ok now actorId hprep hinv.rooted hroots hsame
      obtain rfl : db₁ = db' := (Prod.mk.inj (Except.ok.inj (hm₁.symm.trans hm))).1
      obtain ⟨hs, ht⟩ := roots_current hprep hroots
      have hsameId : samePersonId w.db.persons plan.source plan.target =
          decide (plan.prepared.sourceId = plan.prepared.targetId) := by
        rw [samePersonId, hs, ht]
      rw [hsameId]
      exact ⟨fun he => hone (of_decide_eq_true he), fun hne =>
        have hm := htwo (of_decide_eq_false hne)
        ⟨hm.runtime, hm.plugins⟩⟩

/-! Two persons with a setting each. -/

def twoPersons : IdentityStore where
  persons := (Table.empty.insert { id := "a", displayName := "Ada" }).insert { id := "b" }
  aliases := ⟨.empty, by decide⟩
  runtimeConfig :=
    { table := (Table.empty.insert
          ⟨1, .user "a", "tone", 1, ⟨.str "dry", "string", "hot", 0, 0, "u"⟩⟩).insert
        ⟨2, .user "b", "pace", 1, ⟨.int 3, "integer", "hot", 0, 0, "u"⟩⟩
      unique := by decide }
  pluginConfig := ⟨.empty, by decide⟩
  adminEvents := []

theorem merges_flat_sample :
    ∃ plan w, Run (MergeStep fun value _ => value) { db := twoPersons }
        [.prepare plan, .merge plan 1 "admin"] w ∧ Relation.EqvGen w.Joined "a" "b" := by
  have hboth : (((preparePersonMerge (fun value _ => value) twoPersons "a" "b").bind fun p =>
      mergePersons twoPersons "a" "b" p 1 "admin").toOption.map fun r =>
        samePersonId r.1.persons "a" "b") = some true := by
    decide +kernel
  cases hp : preparePersonMerge (fun value _ => value) twoPersons "a" "b" with
  | error e =>
    rw [hp] at hboth
    cases hboth
  | ok prepared =>
    let plan : Plan := ⟨"a", "b", twoPersons, prepared⟩
    cases hm : mergePersons twoPersons "a" "b" prepared 1 "admin" with
    | error e =>
      rw [hp, Except.bind, hm] at hboth
      cases hboth
    | ok r =>
      rw [hp, Except.bind, hm] at hboth
      have hsame : samePersonId r.1.persons "a" "b" = true := Option.some.inj hboth
      have hrun : Run (MergeStep fun value _ => value) { db := twoPersons }
          [.prepare plan, .merge plan 1 "admin"]
          { db := r.1, plans := [plan], joined := [("a", "b")] } :=
        .cons ⟨rfl, hp, rfl⟩ (.cons ⟨List.mem_cons_self, by simp only [Merges.merge, plan, hm]⟩
          (.nil _))
      have hstart : ∀ person ∈ twoPersons.persons.rows, person.mergedInto = none := by decide
      exact ⟨plan, _, hrun, (((merges_flat hstart hrun).2.1 "a" "b").mp hsame).2.2⟩

end Yuki.Identity

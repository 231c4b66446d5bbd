import Mathlib.Data.List.Dedup
import Yuki.Memory.ReadScope

/-! The read paths see the same facts, but for those that still name a merged id:
the lexical path compares ids exactly where the others compare families. -/

namespace Yuki.MemoryReads

open Identity

variable {db : MemoryDb} {now : Int} {transport : MemoryEntityTarget → Option Owner}
  {a b c p r s : String} {o : Owner} {f : FactRow} {t : MemoryEntityTarget}

/-! Families. -/

def MemoryDb.Known (db : MemoryDb) (a : String) : Prop :=
  a ∈ db.persons.rows.map (·.id)

def MemoryDb.root (db : MemoryDb) (a : String) : String :=
  UnionFind.root (parentOf db.persons) a

/-- Two known persons of one family. -/
def MemoryDb.Same (db : MemoryDb) (a b : String) : Prop :=
  db.Known a ∧ db.Known b ∧ db.root a = db.root b

theorem MemoryDb.Same.symm (h : db.Same a b) : db.Same b a :=
  ⟨h.2.1, h.1, h.2.2.symm⟩

theorem MemoryDb.Same.trans (h : db.Same a b) (h' : db.Same b c) : db.Same a c :=
  ⟨h.1, h'.2.1, h.2.2.trans h'.2.2⟩

theorem MemoryDb.known_root (h : db.Known a) : db.Known (db.root a) :=
  db.rooted.root_mem h

@[simp] theorem MemoryDb.root_root : db.root (db.root a) = db.root a :=
  db.rooted.flat.root_root a

theorem MemoryDb.same_root (h : db.Known a) : db.Same a (db.root a) :=
  ⟨h, MemoryDb.known_root h, MemoryDb.root_root.symm⟩

theorem personRootId_known (h : db.Known a) : personRootId db.persons a = some (db.root a) :=
  (personRootId_eq db.persons a).trans (if_pos h)

theorem personRootId_unknown (h : ¬db.Known a) : personRootId db.persons a = none :=
  (personRootId_eq db.persons a).trans (if_neg h)

theorem any_inFamily : (db.persons.rows.any fun person =>
    person.id = c && person.inFamily (db.root a)) = true ↔ db.Known c ∧ db.root c = db.root a := by
  have hmem := mem_familyOf (a := c) (db.rooted.flat.parent_root a)
  rw [familyOf, List.mem_insertionSort] at hmem
  rw [List.any_eq_true, MemoryDb.Known, MemoryDb.root, MemoryDb.root, ← hmem]
  constructor
  · rintro ⟨person, hp, h⟩
    obtain ⟨hid, hin⟩ := (Bool.and_eq_true ..).mp h
    exact List.mem_map.mpr ⟨person, List.mem_filter.mpr ⟨hp, hin⟩, of_decide_eq_true hid⟩
  · intro h
    obtain ⟨person, hp, rfl⟩ := List.mem_map.mp h
    obtain ⟨hp, hin⟩ := List.mem_filter.mp hp
    exact ⟨person, hp, (Bool.and_eq_true ..).mpr ⟨decide_eq_true rfl, hin⟩⟩

theorem personFamilyCondition_iff {column : Option String} :
    personFamilyCondition db column a = true ↔ ∃ c, column = some c ∧ db.Same c a := by
  unfold personFamilyCondition
  by_cases ha : db.Known a
  · rw [personRootId_known ha]
    cases column with
    | none => simp
    | some c =>
      dsimp only
      rw [Option.any_some, any_inFamily]
      simp [MemoryDb.Same, ha]
  · rw [personRootId_unknown ha]
    simp [MemoryDb.Same, ha]

theorem samePersonCondition_iff {left right : Option String} :
    samePersonCondition db left right = true ↔
      ∃ a b, left = some a ∧ right = some b ∧ db.Same a b := by
  unfold samePersonCondition
  cases left with
  | none => simp
  | some a =>
    cases right with
    | none => simp
    | some b =>
      rw [Option.bind_some, Option.bind_some]
      by_cases ha : db.Known a <;> by_cases hb : db.Known b <;>
        simp [personRootId_known, personRootId_unknown, MemoryDb.Same, ha, hb]

/-! Shared spaces. -/

/-- A membership of the person's family in the space. -/
def MemoryDb.Member (db : MemoryDb) (a s : String) : Prop :=
  ∃ m ∈ db.memberships, db.Same m.canonicalPersonId a ∧ m.canonicalSpaceId = s

/-- A space that two persons are both in. -/
def MemoryDb.Shares (db : MemoryDb) (a b s : String) : Prop :=
  db.Member a s ∧ db.Member b s

theorem MemoryDb.Member.same (h : db.Member a s) (hs : db.Same a b) : db.Member b s := by
  obtain ⟨m, hm, hsame, hspace⟩ := h
  exact ⟨m, hm, hsame.trans hs, hspace⟩

theorem mem_groupsOf : s ∈ groupsOf db a ↔ db.Member a s := by
  unfold groupsOf MemoryDb.Member
  rw [List.mem_map]
  constructor
  · rintro ⟨m, hm, hs⟩
    obtain ⟨hm, hf⟩ := List.mem_filter.mp hm
    obtain ⟨c, hc, hsame⟩ := personFamilyCondition_iff.mp hf
    cases hc
    exact ⟨m, hm, hsame, hs⟩
  · rintro ⟨m, hm, hsame, hs⟩
    exact ⟨m, List.mem_filter.mpr ⟨hm, personFamilyCondition_iff.mpr ⟨_, rfl, hsame⟩⟩, hs⟩

theorem memberOfFactSpace_iff : memberOfFactSpace db r o = true ↔
    ∃ s, o.canonicalSubjectSpaceId = some s ∧ db.Member r s := by
  unfold memberOfFactSpace
  rw [List.any_eq_true]
  constructor
  · rintro ⟨m, hm, h⟩
    obtain ⟨hf, hs⟩ := (Bool.and_eq_true ..).mp h
    obtain ⟨c, hc, hsame⟩ := personFamilyCondition_iff.mp hf
    cases hc
    exact ⟨_, of_decide_eq_true hs, m, hm, hsame, rfl⟩
  · rintro ⟨s, hs, m, hm, hsame, rfl⟩
    exact ⟨m, hm, (Bool.and_eq_true ..).mpr
      ⟨personFamilyCondition_iff.mpr ⟨_, rfl, hsame⟩, decide_eq_true hs⟩⟩

theorem ownerInFactSpace_iff : ownerInFactSpace db o = true ↔
    ∃ c s, o.canonicalSubjectPersonId = some c ∧ o.canonicalSubjectSpaceId = some s ∧
      db.Member c s := by
  unfold ownerInFactSpace
  rw [List.any_eq_true]
  constructor
  · rintro ⟨m, hm, h⟩
    obtain ⟨hf, hs⟩ := (Bool.and_eq_true ..).mp h
    obtain ⟨_, c, hl, hc, hsame⟩ := samePersonCondition_iff.mp hf
    cases hl
    exact ⟨c, _, hc, of_decide_eq_true hs, m, hm, hsame, rfl⟩
  · rintro ⟨c, s, hc, hs, m, hm, hsame, rfl⟩
    exact ⟨m, hm, (Bool.and_eq_true ..).mpr
      ⟨samePersonCondition_iff.mpr ⟨_, c, rfl, hc, hsame⟩, decide_eq_true hs⟩⟩

theorem directSharedGroup_iff : directSharedGroup db r o = true ↔
    ∃ c s, o.canonicalSubjectPersonId = some c ∧ db.Shares r c s := by
  unfold directSharedGroup
  rw [List.any_eq_true]
  constructor
  · rintro ⟨first, hfirst, h⟩
    obtain ⟨second, hsecond, h⟩ := List.any_eq_true.mp h
    obtain ⟨h, hr⟩ := (Bool.and_eq_true ..).mp h
    obtain ⟨hs, hl⟩ := (Bool.and_eq_true ..).mp h
    obtain ⟨_, hl, hfr⟩ := personFamilyCondition_iff.mp hl
    obtain ⟨_, c, hsome, hc, hsc⟩ := samePersonCondition_iff.mp hr
    cases hl
    cases hsome
    exact ⟨c, _, hc, ⟨first, hfirst, hfr, rfl⟩, ⟨second, hsecond, hsc, of_decide_eq_true hs⟩⟩
  · rintro ⟨c, s, hc, ⟨first, hfirst, hfr, rfl⟩, ⟨second, hsecond, hsc, hs⟩⟩
    refine ⟨first, hfirst, List.any_eq_true.mpr ⟨second, hsecond, ?_⟩⟩
    rw [Bool.and_eq_true, Bool.and_eq_true]
    exact ⟨⟨decide_eq_true hs, personFamilyCondition_iff.mpr ⟨_, rfl, hfr⟩⟩,
      samePersonCondition_iff.mpr ⟨_, c, rfl, hc, hsc⟩⟩

/-! The targets of a person and of a space. -/

theorem ownerOf_nil {targets : List String} (h : a ∈ r :: targets) :
    ownerOf db [] r targets a = personRootId db.persons a := by
  unfold ownerOf
  split
  · rfl
  · rename_i hc
    have hget : db.persons.get? a = none := by
      rw [← Option.not_isSome_iff_eq_none]
      intro hsome
      exact hc ((Bool.and_eq_true ..).mpr ⟨List.contains_iff_mem.mpr h, hsome⟩)
    rw [personRootId, hget]
    rfl

theorem get?_any_root (hc : db.Known c) {q : Person → Bool} :
    (db.persons.get? c).any (fun subject => decide (subject.root = db.root a) && q subject) = true ↔
      db.root c = db.root a ∧ ∃ subject, db.persons.get? c = some subject ∧ q subject = true := by
  obtain ⟨subject, hget⟩ := Table.get?_isSome.mpr hc
  have hroot : subject.root = db.root c := by
    have := personRootId_known hc
    rw [personRootId, hget] at this
    exact Option.some.inj this
  rw [hget, Option.any_some, Bool.and_eq_true, decide_eq_true_iff, hroot]
  simp

theorem inFamily_root (hc : db.Known c) (hroot : db.root c = db.root a) {subject : Person}
    (hget : db.persons.get? c = some subject) : subject.inFamily (db.root a) = true := by
  obtain ⟨person, hp, h⟩ := List.any_eq_true.mp (any_inFamily.mpr ⟨hc, hroot⟩)
  obtain ⟨hid, hin⟩ := (Bool.and_eq_true ..).mp h
  have hsome := Table.get?_eq_some.mpr ⟨hp, of_decide_eq_true hid⟩
  rw [hget] at hsome
  cases hsome
  exact hin

theorem mem_sharedGroups (hp : db.Known p) {candidates : List String}
    (hcand : db.root p ∈ candidates) :
    s ∈ sharedGroups db (db.root r) candidates (db.root p) ↔ db.Shares (db.root r) p s := by
  unfold sharedGroups
  rw [List.mem_map]
  constructor
  · rintro ⟨m, hm, hs⟩
    obtain ⟨hm, h⟩ := List.mem_filter.mp hm
    obtain ⟨hany, hin⟩ := (Bool.and_eq_true ..).mp h
    have hc := (db.members m hm).1
    have hroot := ((get?_any_root hc).mp hany).1
    have hgroup := mem_groupsOf.mp (List.contains_iff_mem.mp hin)
    rw [hs] at hgroup
    exact ⟨hgroup, m, hm, ⟨hc, hp, hroot⟩, hs⟩
  · rintro ⟨hgroup, m, hm, hsame, rfl⟩
    obtain ⟨subject, hget⟩ := Table.get?_isSome.mpr hsame.1
    refine ⟨m, List.mem_filter.mpr ⟨hm, (Bool.and_eq_true ..).mpr ⟨?_, ?_⟩⟩, rfl⟩
    · refine (get?_any_root hsame.1).mpr ⟨hsame.2.2, subject, hget, List.any_eq_true.mpr ?_⟩
      exact ⟨_, hcand, inFamily_root hsame.1 hsame.2.2 hget⟩
    · exact List.contains_iff_mem.mpr (mem_groupsOf.mpr hgroup)

/-- The requester's own family, or a space in common. -/
def MemoryDb.Reaches (db : MemoryDb) (r p : String) : Prop :=
  db.Same r p ∨ ∃ s, db.Shares r p s

theorem MemoryDb.Member.known (h : db.Member a s) : db.Known a := by
  obtain ⟨m, _, hsame, _⟩ := h
  exact hsame.2.1

theorem MemoryDb.Reaches.known (h : db.Reaches r p) : db.Known r ∧ db.Known p := by
  rcases h with h | ⟨s, hr, hp⟩
  · exact ⟨h.1, h.2.1⟩
  · exact ⟨hr.known, hp.known⟩

theorem shares_root (hr : db.Known r) : db.Shares (db.root r) p s ↔ db.Shares r p s := by
  have hsame := MemoryDb.same_root hr
  exact ⟨fun h => ⟨h.1.same hsame.symm, h.2⟩, fun h => ⟨h.1.same hsame, h.2⟩⟩

/-- What `people` returns for one person, outside any group. -/
def peopleTargets (db : MemoryDb) (r p : String) : List MemoryEntityTarget :=
  (people db [] r [p] none true true).flatMap (·.2)

/-- The spaces in order, each once. -/
def spacesOf (db : MemoryDb) (r p : String) : List String :=
  (sharedGroups db (db.root r) [db.root r, db.root p] (db.root p)).dedup.insertionSort (· ≤ ·)

theorem mem_spacesOf (hr : db.Known r) (hp : db.Known p) :
    s ∈ spacesOf db r p ↔ db.Shares r p s := by
  unfold spacesOf
  rw [List.mem_insertionSort, List.mem_dedup, ← shares_root hr]
  exact mem_sharedGroups hp (by simp)

theorem personScope_eq (hp : db.Known p) :
    personScope db [] (db.root r) r [p] none true true p =
      if db.root r ≠ db.root p ∧ spacesOf db r p = [] then none
      else some (personTarget (decide (db.root r = db.root p)) (db.root p) ::
        (spacesOf db r p).map (personGroupTarget (decide (db.root r = db.root p)) (db.root p))) := by
  have howner : ownerOf db [] r [p] p = some (db.root p) := by
    rw [ownerOf_nil (by simp), personRootId_known hp]
  have hcand : [p].filterMap (ownerOf db [] r [p]) = [db.root p] := by
    rw [List.filterMap_cons_some howner, List.filterMap_nil]
  have hempty : spacesOf db r p = [] ↔
      (sharedGroups db (db.root r) [db.root r, db.root p] (db.root p)).isEmpty = true := by
    unfold spacesOf
    rw [List.isEmpty_iff, List.eq_nil_iff_forall_not_mem, List.eq_nil_iff_forall_not_mem]
    simp [List.mem_insertionSort, List.mem_dedup]
  unfold personScope
  rw [howner, Option.bind_eq_bind, Option.bind_some, hcand]
  simp only [hempty, Bool.true_or, if_true, Option.isSome_none, Option.isNone_none, Bool.false_and,
    Bool.false_eq_true, if_false, Bool.and_eq_true, Bool.not_eq_true', decide_eq_false_iff_not]
  rfl

theorem reaches_iff (hr : db.Known r) (hp : db.Known p) :
    db.Reaches r p ↔ ¬(db.root r ≠ db.root p ∧ spacesOf db r p = []) := by
  have hspaces : spacesOf db r p = [] ↔ ¬∃ s, db.Shares r p s := by
    rw [List.eq_nil_iff_forall_not_mem, not_exists]
    simp only [mem_spacesOf hr hp]
  rw [hspaces, MemoryDb.Reaches, MemoryDb.Same]
  tauto

/-- The person, and one target for each space in common. -/
theorem people_eq (h : db.Reaches r p) :
    people db [] r [p] none true true =
      [(p, personTarget (decide (db.root r = db.root p)) (db.root p) ::
        (spacesOf db r p).map (personGroupTarget (decide (db.root r = db.root p)) (db.root p)))] := by
  obtain ⟨hr, hp⟩ := h.known
  have hself : ownerOf db [] r [p] r = some (db.root r) := by
    rw [ownerOf_nil (by simp), personRootId_known hr]
  have hscope := (personScope_eq (r := r) hp).trans (if_neg ((reaches_iff hr hp).mp h))
  unfold people
  rw [hself, Option.some_or]
  dsimp only
  rw [(List.nodup_singleton p).dedup]
  simp [hscope]

theorem people_eq_nil (h : ¬db.Reaches r p) : people db [] r [p] none true true = [] := by
  unfold people
  by_cases hr : db.Known r
  · have hself : ownerOf db [] r [p] r = some (db.root r) := by
      rw [ownerOf_nil (by simp), personRootId_known hr]
    rw [hself, Option.some_or]
    dsimp only
    rw [(List.nodup_singleton p).dedup]
    refine List.filterMap_cons_none (Option.map_eq_none_iff.mpr ?_)
    by_cases hp : db.Known p
    · exact (personScope_eq hp).trans (if_pos (not_not.mp ((reaches_iff hr hp).not.mp h)))
    · unfold personScope
      rw [ownerOf_nil (by simp), personRootId_unknown hp]
      rfl
  · rw [ownerOf_nil (by simp), personRootId_unknown hr]
    rfl

theorem mem_group : t ∈ group db r s ↔ s ∈ db.spaces ∧ db.Member r s ∧
    t = { role := .currentGroup
          owner := { scopeType := .group, canonicalSubjectSpaceId := some s }
          blockId := "group:" ++ s } := by
  have hgroups : s ∈ ((personRootId db.persons r).map (groupsOf db)).getD [] ↔ db.Member r s := by
    by_cases hr : db.Known r
    · have hsame := MemoryDb.same_root hr
      rw [personRootId_known hr, Option.map_some, Option.getD_some, mem_groupsOf]
      exact ⟨fun h => h.same hsame.symm, fun h => h.same hsame⟩
    · rw [personRootId_unknown hr]
      exact ⟨fun h => absurd h List.not_mem_nil, fun h => absurd h.known hr⟩
  unfold group
  dsimp only
  split
  · rename_i h
    obtain ⟨hs, hg⟩ := (Bool.and_eq_true ..).mp h
    have hm := hgroups.mp (List.contains_iff_mem.mp hg)
    rw [List.mem_singleton]
    exact ⟨fun ht => ⟨List.contains_iff_mem.mp hs, hm, ht⟩, fun ht => ht.2.2⟩
  · rename_i h
    refine ⟨fun ht => absurd ht List.not_mem_nil, fun ht => absurd ?_ h⟩
    exact (Bool.and_eq_true ..).mpr ⟨List.contains_iff_mem.mpr ht.1,
      List.contains_iff_mem.mpr (hgroups.mpr ht.2.1)⟩

/-! What the facts of a target are to each path. -/

/-- A fact that the target names or covers: its scope, its space, and a subject in the family. -/
def Covers (db : MemoryDb) (target o : Owner) : Prop :=
  o.scopeType = target.scopeType ∧
    o.canonicalSubjectSpaceId = target.canonicalSubjectSpaceId ∧
      match target.canonicalSubjectPersonId with
      | some p => ∃ c, o.canonicalSubjectPersonId = some c ∧ db.Same c p
      | none => o.canonicalSubjectPersonId = none

theorem familyOrNull_iff {column id : Option String} : familyOrNull db column id = true ↔
    match id with
    | some p => ∃ c, column = some c ∧ db.Same c p
    | none => column = none := by
  cases id with
  | some p => exact personFamilyCondition_iff
  | none => exact Option.isNone_iff_eq_none

/-- A fact of a person or a space has no visibility. -/
theorem noVisibility_of (hf : f ∈ db.facts.rows) (h : f.owner.scopeType ≠ .self) :
    noVisibility f.owner = true := by
  have hv := (db.complete f hf).2.2
  unfold selfVisibility at hv
  unfold noVisibility
  cases hs : f.owner.scopeType <;> simp_all

section Targets

variable (hf : f ∈ db.facts.rows) (hself : t.owner.scopeType ≠ .self)
  (hcomplete : canonicalFactOwnerComplete t.owner = true)

include hcomplete in
theorem resolve_complete : resolveFactCanonicalOwners transport t = some t.owner :=
  if_pos hcomplete

include hf hself in
theorem targetConditions_iff :
    targetConditions db t t.owner f.owner = true ↔ Covers db t.owner f.owner := by
  unfold targetConditions Covers
  rw [if_neg hself, Bool.and_eq_true, Bool.and_eq_true, Bool.and_eq_true, familyOrNull_iff,
    decide_eq_true_iff, decide_eq_true_iff]
  constructor
  · rintro ⟨⟨⟨hs, hp⟩, hg⟩, -⟩
    exact ⟨hs, hg, hp⟩
  · rintro ⟨hs, hg, hp⟩
    exact ⟨⟨⟨hs, hp⟩, hg⟩, noVisibility_of hf (hs ▸ hself)⟩

include hf hself hcomplete in
theorem vectorLets_iff : vectorLets db transport now t f = true ↔
    f.readable now = true ∧ Covers db t.owner f.owner := by
  unfold vectorLets
  rw [resolve_complete hcomplete, Option.any_some, Bool.and_eq_true, targetConditions_iff hf hself]

include hf hself hcomplete in
/-- The lexical path lets a covered fact through if it names the target's own id. -/
theorem lexicalLets_iff :
    (searchLets transport now t f && getActiveLets db transport now t f) = true ↔
      f.readable now = true ∧ Covers db t.owner f.owner ∧
        f.owner.canonicalSubjectPersonId = t.owner.canonicalSubjectPersonId := by
  unfold searchLets getActiveLets
  rw [resolve_complete hcomplete, Option.any_some, Option.any_some, Bool.and_eq_true,
    Bool.and_eq_true, Bool.and_eq_true, Bool.and_eq_true, targetConditions_iff hf hself]
  constructor
  · rintro ⟨⟨-, hscope⟩, hcov, hread⟩
    unfold scopeFilter at hscope
    rw [Bool.and_eq_true, Bool.and_eq_true, Bool.and_eq_true] at hscope
    exact ⟨hread, hcov, of_decide_eq_true hscope.1.1.2⟩
  · rintro ⟨hread, hcov, hsubject⟩
    have hstate : decide (f.status = .active) = true ∧ f.unexpired now = true := by
      unfold FactRow.readable at hread
      rw [Bool.and_eq_true, Bool.and_eq_true] at hread
      exact ⟨hread.1.1, hread.2⟩
    refine ⟨⟨hstate, ?_⟩, hcov, hread⟩
    unfold scopeFilter
    rw [if_neg hself, noVisibility_of hf (hcov.1 ▸ hself)]
    simp [hcov.1, hcov.2.1, hsubject]

include hself in
theorem selectedBy_iff : selectedBy db t o = true ↔ Covers db t.owner o := by
  unfold selectedBy Covers
  rw [← familyOrNull_iff]
  cases hs : t.owner.scopeType with
  | self => exact absurd hs hself
  | _ =>
    dsimp only
    rw [Bool.and_eq_true, Bool.and_eq_true, decide_eq_true_iff, decide_eq_true_iff]
    tauto

end Targets

/-! What a requester is permitted. -/

/-- The facts of persons and spaces that a requester may read. -/
def MemoryDb.Permits (db : MemoryDb) (r : String) (o : Owner) : Prop :=
  match o.scopeType with
  | .person => ∃ c, o.canonicalSubjectPersonId = some c ∧ db.Reaches r c
  | .personGroup => ∃ c s, o.canonicalSubjectPersonId = some c ∧
      o.canonicalSubjectSpaceId = some s ∧ db.Shares r c s
  | .group => ∃ s, o.canonicalSubjectSpaceId = some s ∧ db.Member r s
  | .self => False

theorem MemoryDb.Permits.known (h : db.Permits r o) : db.Known r := by
  unfold MemoryDb.Permits at h
  split at h
  · obtain ⟨c, -, h⟩ := h
    exact h.known.1
  · obtain ⟨c, s, -, -, h⟩ := h
    exact h.1.known
  · obtain ⟨s, -, h⟩ := h
    exact h.known
  · exact h.elim

theorem reaches_root (hr : db.Known r) : db.Reaches (db.root r) c ↔ db.Reaches r c := by
  have hsame := MemoryDb.same_root hr
  unfold MemoryDb.Reaches
  simp only [shares_root hr]
  exact or_congr_left ⟨fun h => hsame.trans h, fun h => hsame.symm.trans h⟩

theorem requesterClauses_iff (hf : f ∈ db.facts.rows) (hself : f.owner.scopeType ≠ .self) :
    requesterClauses db [.person, .personGroup, .group, .self] r f.owner = true ↔
      db.Permits r f.owner := by
  have hid := (db.complete f hf).2.1
  unfold scopeIdentity at hid
  unfold requesterClauses MemoryDb.Permits
  cases hs : f.owner.scopeType with
  | self => exact absurd hs hself
  | person =>
    rw [hs] at hid
    obtain ⟨hperson, hspace⟩ := (Bool.and_eq_true ..).mp hid
    obtain ⟨c, hc⟩ := Option.isSome_iff_exists.mp hperson
    simp [hspace, hc, personFamilyCondition_iff, directSharedGroup_iff, MemoryDb.Reaches,
      show db.Same c r ↔ db.Same r c from ⟨.symm, .symm⟩]
  | personGroup =>
    rw [hs] at hid
    obtain ⟨hperson, hspace⟩ := (Bool.and_eq_true ..).mp hid
    obtain ⟨c, hc⟩ := Option.isSome_iff_exists.mp hperson
    obtain ⟨s, hg⟩ := Option.isSome_iff_exists.mp hspace
    simp [hc, hg, memberOfFactSpace_iff, ownerInFactSpace_iff, MemoryDb.Shares]
  | group =>
    rw [hs] at hid
    obtain ⟨hperson, hspace⟩ := (Bool.and_eq_true ..).mp hid
    simp [hperson, hspace, memberOfFactSpace_iff]

theorem permits_root (hr : db.Known r) : db.Permits (db.root r) o ↔ db.Permits r o := by
  have hsame := MemoryDb.same_root hr
  unfold MemoryDb.Permits
  split
  · simp only [reaches_root hr]
  · simp only [shares_root hr]
  · exact exists_congr fun s => and_congr_right fun _ =>
      ⟨fun h => h.same hsame.symm, fun h => h.same hsame⟩
  · rfl

theorem permitted_iff (hf : f ∈ db.facts.rows) (hself : f.owner.scopeType ≠ .self)
    {targets : List MemoryEntityTarget} :
    permitted db (authorized db r targets) f.owner = true ↔ db.Permits r f.owner := by
  unfold permitted
  rw [Bool.or_eq_true]
  by_cases hr : db.Known r
  · have hne : r ≠ "" := by
      obtain ⟨person, hp, hid⟩ := List.mem_map.mp hr
      exact hid ▸ db.personIds person hp
    have hid : (authorized db r targets).requesterPersonId = some (db.root r) := by
      rw [authorized, if_neg hne, personRootId_known hr]
    rw [hid]
    dsimp only
    rw [show (authorized db r targets).allowedScopes = [.person, .personGroup, .group, .self] from
      rfl, requesterClauses_iff hf hself, permits_root hr]
    simp [hself]
  · have hid : (authorized db r targets).requesterPersonId = none := by
      unfold authorized
      split <;> [rfl; exact personRootId_unknown hr]
    rw [hid]
    simp only [show (authorized db r targets).currentGroupOnly = false from rfl, Bool.false_and,
      Bool.false_eq_true, false_or]
    refine ⟨fun h => ?_, fun h => absurd h.known hr⟩
    simp [hself] at h

/-! The three sets. -/

section Sets

variable (db) (transport) (now)

/-- What `search` and then `get_active_for_target` let through. -/
def lexicalFacts (t : MemoryEntityTarget) : List FactRow :=
  db.facts.rows.filter fun f => searchLets transport now t f && getActiveLets db transport now t f

/-- What the conditions of `load_target_vectors` let through. -/
def vectorFacts (t : MemoryEntityTarget) : List FactRow :=
  db.facts.rows.filter fun f => vectorLets db transport now t f

/-- The readable facts that `authorized_fact_condition` lets through for a target. -/
def authorizedFacts (r : String) (t : MemoryEntityTarget) : List FactRow :=
  db.facts.rows.filter fun f =>
    f.readable now && authorizedFactCondition db (authorized db r [t]) f

/-- Every read path sees the same facts of a target. -/
def SameFacts (r : String) (t : MemoryEntityTarget) : Prop :=
  lexicalFacts db now transport t = vectorFacts db now transport t ∧
    vectorFacts db now transport t = authorizedFacts db now r t

/-- Without a target of a person, no fact of the person's family is permitted. -/
def PersonHidden (r p : String) : Prop :=
  people db [] r [p] none true true = [] → ∀ f ∈ db.facts.rows,
    f.owner.scopeType = .person ∨ f.owner.scopeType = .personGroup →
      personFamilyCondition db f.owner.canonicalSubjectPersonId p = true →
        authorizedFactCondition db (authorized db r []) f = false

/-- Without a target of a space, no fact of the space is permitted. -/
def GroupHidden (r g : String) : Prop :=
  group db r g = [] → ∀ f ∈ db.facts.rows, f.owner.scopeType = .group →
    f.owner.canonicalSubjectSpaceId = some g →
      authorizedFactCondition db (authorized db r []) f = false

end Sets

theorem personHidden (db : MemoryDb) (r p : String) : PersonHidden db r p := by
  intro hnone f hf hscope hfamily
  have hself : f.owner.scopeType ≠ .self := by
    rcases hscope with h | h <;> simp [h]
  obtain ⟨c, hc, hsame⟩ := personFamilyCondition_iff.mp hfamily
  rw [← Bool.not_eq_true]
  intro h
  have hpermits := (permitted_iff hf hself).mp ((Bool.and_eq_true ..).mp h).1
  have hreaches : db.Reaches r p := by
    unfold MemoryDb.Permits at hpermits
    rcases hscope with hs | hs <;> rw [hs] at hpermits
    · obtain ⟨_, hc', h | ⟨s, hr, hs⟩⟩ := hpermits <;> rw [hc] at hc' <;> cases hc'
      · exact Or.inl (h.trans hsame)
      · exact Or.inr ⟨s, hr, hs.same hsame⟩
    · obtain ⟨_, s, hc', -, hr, hs⟩ := hpermits
      rw [hc] at hc'
      cases hc'
      exact Or.inr ⟨s, hr, hs.same hsame⟩
  rw [people_eq hreaches] at hnone
  cases hnone

theorem groupHidden (db : MemoryDb) (r s : String) : GroupHidden db r s := by
  intro hnone f hf hscope hspace
  have hself : f.owner.scopeType ≠ .self := by simp [hscope]
  rw [← Bool.not_eq_true]
  intro h
  have hpermits := (permitted_iff hf hself).mp ((Bool.and_eq_true ..).mp h).1
  unfold MemoryDb.Permits at hpermits
  rw [hscope] at hpermits
  obtain ⟨_, hs, hmember⟩ := hpermits
  rw [hspace] at hs
  cases hs
  obtain ⟨m, hm, _, hs⟩ := id hmember
  have hmem := mem_group.mpr ⟨hs ▸ (db.members m hm).2, hmember, rfl⟩
  rw [hnone] at hmem
  cases hmem

section Agree

variable (hself : t.owner.scopeType ≠ .self)
  (hcomplete : canonicalFactOwnerComplete t.owner = true)
  (hpermits : ∀ f ∈ db.facts.rows, Covers db t.owner f.owner → db.Permits r f.owner)

include hself hpermits in
theorem authorizedLets_iff (hf : f ∈ db.facts.rows) :
    (f.readable now && authorizedFactCondition db (authorized db r [t]) f) = true ↔
      f.readable now = true ∧ Covers db t.owner f.owner := by
  have hselected : ((authorized db r [t]).resolvedTargets.isEmpty ||
      (authorized db r [t]).resolvedTargets.any fun t => selectedBy db t f.owner) = true ↔
        Covers db t.owner f.owner := by
    rw [← selectedBy_iff hself, show (authorized db r [t]).resolvedTargets = [t] from rfl]
    simp
  unfold authorizedFactCondition
  rw [Bool.and_eq_true, Bool.and_eq_true, hselected]
  refine and_congr_right fun _ => ⟨fun h => h.2, fun h => ⟨?_, h⟩⟩
  exact (permitted_iff hf (h.1 ▸ hself)).mpr (hpermits f hf h)

include hself hcomplete hpermits in
/-- The paths agree on a target exactly if every fact it covers names its own id. -/
theorem sameFacts_iff : SameFacts db now transport r t ↔
    ∀ f ∈ db.facts.rows, f.readable now = true → Covers db t.owner f.owner →
      f.owner.canonicalSubjectPersonId = t.owner.canonicalSubjectPersonId := by
  constructor
  · rintro ⟨hlex, -⟩ f hf hread hcov
    have hvec : f ∈ vectorFacts db now transport t :=
      List.mem_filter.mpr ⟨hf, (vectorLets_iff hf hself hcomplete).mpr ⟨hread, hcov⟩⟩
    rw [← hlex] at hvec
    exact ((lexicalLets_iff hf hself hcomplete).mp (List.mem_filter.mp hvec).2).2.2
  · intro h
    refine ⟨List.filter_congr fun f hf => ?_, List.filter_congr fun f hf => ?_⟩
    · rw [Bool.eq_iff_iff, lexicalLets_iff hf hself hcomplete, vectorLets_iff hf hself hcomplete]
      exact ⟨fun hl => ⟨hl.1, hl.2.1⟩, fun hv => ⟨hv.1, hv.2, h f hf hv.1 hv.2⟩⟩
    · rw [Bool.eq_iff_iff, vectorLets_iff hf hself hcomplete,
        authorizedLets_iff hself hpermits hf]

end Agree

/-! The targets of one requester. -/

theorem truthy_known (h : db.Known a) : truthy (some a) = true := by
  obtain ⟨person, hp, rfl⟩ := List.mem_map.mp h
  exact decide_eq_true (db.personIds person hp)

theorem truthy_space (h : s ∈ db.spaces) : truthy (some s) = true :=
  decide_eq_true fun he => db.spaceIds (he ▸ h)

theorem MemoryDb.Member.space (h : db.Member a s) : s ∈ db.spaces := by
  obtain ⟨m, hm, -, rfl⟩ := h
  exact (db.members m hm).2

theorem covers_person {own : Bool} : Covers db (personTarget own (db.root p)).owner o ↔
    o.scopeType = .person ∧ o.canonicalSubjectSpaceId = none ∧
      ∃ c, o.canonicalSubjectPersonId = some c ∧ db.Same c (db.root p) :=
  Iff.rfl

theorem covers_personGroup {own : Bool} :
    Covers db (personGroupTarget own (db.root p) s).owner o ↔
      o.scopeType = .personGroup ∧ o.canonicalSubjectSpaceId = some s ∧
        ∃ c, o.canonicalSubjectPersonId = some c ∧ db.Same c (db.root p) :=
  Iff.rfl

theorem permits_person (h : db.Reaches r p) {own : Bool}
    (hcov : Covers db (personTarget own (db.root p)).owner o) : db.Permits r o := by
  obtain ⟨hs, -, c, hc, hsame⟩ := covers_person.mp hcov
  have hcp := hsame.trans (MemoryDb.same_root h.known.2).symm
  unfold MemoryDb.Permits
  rw [hs]
  refine ⟨c, hc, ?_⟩
  rcases h with h | ⟨s, hr, hp⟩
  · exact Or.inl (h.trans hcp.symm)
  · exact Or.inr ⟨s, hr, hp.same hcp.symm⟩

theorem permits_personGroup (h : db.Shares r p s) {own : Bool}
    (hcov : Covers db (personGroupTarget own (db.root p) s).owner o) : db.Permits r o := by
  obtain ⟨hs, hg, c, hc, hsame⟩ := covers_personGroup.mp hcov
  have hcp := hsame.trans (MemoryDb.same_root h.2.known).symm
  unfold MemoryDb.Permits
  rw [hs]
  exact ⟨c, s, hc, hg, h.1, h.2.same hcp.symm⟩

theorem sameFacts_person (h : db.Reaches r p) (own : Bool) :
    SameFacts db now transport r (personTarget own (db.root p)) ↔
      ∀ f ∈ db.facts.rows, f.readable now = true →
        Covers db (personTarget own (db.root p)).owner f.owner →
          f.owner.canonicalSubjectPersonId = some (db.root p) :=
  sameFacts_iff (by simp [personTarget])
    (by simp [personTarget, canonicalFactOwnerComplete, truthy_known (MemoryDb.known_root h.known.2),
      show truthy none = false from rfl])
    (fun _ _ hcov => permits_person h hcov)

theorem sameFacts_personGroup (h : db.Shares r p s) (own : Bool) :
    SameFacts db now transport r (personGroupTarget own (db.root p) s) ↔
      ∀ f ∈ db.facts.rows, f.readable now = true →
        Covers db (personGroupTarget own (db.root p) s).owner f.owner →
          f.owner.canonicalSubjectPersonId = some (db.root p) :=
  sameFacts_iff (by simp [personGroupTarget])
    (by simp [personGroupTarget, canonicalFactOwnerComplete, truthy_space h.2.space,
      truthy_known (MemoryDb.known_root h.2.known), show truthy none = false from rfl])
    (fun _ _ hcov => permits_personGroup h hcov)

/-- A target of a space has no subject that could be a merged id. -/
theorem sameFacts_group (ht : t ∈ group db r s) : SameFacts db now transport r t := by
  obtain ⟨hspace, hmember, rfl⟩ := mem_group.mp ht
  refine (sameFacts_iff (by simp) ?_ fun f _ hcov => ?_).mpr fun f _ _ hcov => hcov.2.2
  · simp [canonicalFactOwnerComplete, truthy_space hspace, show truthy none = false from rfl]
  · unfold MemoryDb.Permits
    rw [hcov.1]
    exact ⟨s, hcov.2.1, hmember⟩

/-- Each readable fact of the person's family that the requester reaches names the root, not an
id that was merged into it. -/
def NamesRoot (db : MemoryDb) (now : Int) (r p : String) : Prop :=
  ∀ f ∈ db.facts.rows, f.readable now = true →
    (f.owner.scopeType = .person ∧ db.Reaches r p ∨
      f.owner.scopeType = .personGroup ∧
        ∃ s, f.owner.canonicalSubjectSpaceId = some s ∧ db.Shares r p s) →
      ∀ c, f.owner.canonicalSubjectPersonId = some c → db.Same c p → c = db.root p

/-- The read paths agree on every target exactly if no fact within reach still names a merged
id; what has no target is permitted by none of them. -/
theorem read_paths_agree_iff (db : MemoryDb) (now : Int)
    (transport : MemoryEntityTarget → Option Owner) (r p g : String) :
    ((∀ scope ∈ people db [] r [p] none true true, ∀ t ∈ scope.2, SameFacts db now transport r t) ∧
        (∀ t ∈ group db r g, SameFacts db now transport r t) ∧
        PersonHidden db r p ∧ GroupHidden db r g) ↔
      NamesRoot db now r p := by
  constructor
  · rintro ⟨hpeople, -⟩ f hf hread hscope c hc hsame
    rcases hscope with ⟨hs, hreach⟩ | ⟨hs, s, hg, hshares⟩
    · have hroot := hsame.trans (MemoryDb.same_root hreach.known.2)
      rw [people_eq hreach] at hpeople
      have ht := hpeople _ (List.mem_singleton_self _) _ List.mem_cons_self
      have hspace : f.owner.canonicalSubjectSpaceId = none := by
        have hid := (db.complete f hf).2.1
        unfold scopeIdentity at hid
        rw [hs] at hid
        exact Option.isNone_iff_eq_none.mp ((Bool.and_eq_true ..).mp hid).2
      have heq := (sameFacts_person hreach _).mp ht f hf hread ⟨hs, hspace, c, hc, hroot⟩
      rw [hc] at heq
      exact Option.some.inj heq
    · have hreach : db.Reaches r p := Or.inr ⟨s, hshares⟩
      have hroot := hsame.trans (MemoryDb.same_root hreach.known.2)
      have hmem := (mem_spacesOf hreach.known.1 hreach.known.2).mpr hshares
      rw [people_eq hreach] at hpeople
      have ht := hpeople _ (List.mem_singleton_self _) _
        (List.mem_cons_of_mem _ (List.mem_map_of_mem hmem))
      have heq := (sameFacts_personGroup hshares _).mp ht f hf hread ⟨hs, hg, c, hc, hroot⟩
      rw [hc] at heq
      exact Option.some.inj heq
  · intro hnames
    refine ⟨?_, fun t ht => sameFacts_group ht, personHidden db r p, groupHidden db r g⟩
    by_cases hreach : db.Reaches r p
    · have hback := (MemoryDb.same_root hreach.known.2).symm
      rw [people_eq hreach]
      intro scope hscope t ht
      rw [List.mem_singleton.mp hscope] at ht
      rcases List.mem_cons.mp ht with rfl | ht
      · refine (sameFacts_person hreach _).mpr fun f hf hread hcov => ?_
        obtain ⟨hs, -, c, hc, hsame⟩ := covers_person.mp hcov
        rw [hc, hnames f hf hread (Or.inl ⟨hs, hreach⟩) c hc (hsame.trans hback)]
      · obtain ⟨s, hs, rfl⟩ := List.mem_map.mp ht
        have hshares := (mem_spacesOf hreach.known.1 hreach.known.2).mp hs
        refine (sameFacts_personGroup hshares _).mpr fun f hf hread hcov => ?_
        obtain ⟨hs, hg, c, hc, hsame⟩ := covers_personGroup.mp hcov
        rw [hc, hnames f hf hread (Or.inr ⟨hs, s, hg, hshares⟩) c hc (hsame.trans hback)]
    · rw [people_eq_nil hreach]
      exact fun scope hscope => absurd hscope List.not_mem_nil

def mergedId : String := "3f0c9a52-7d1e-4b66-9a3d-5c2e8f1b7a40"

def rootId : String := "b81d4c07-2e5a-4f93-8c16-0d9e7a6f3b25"

def mergedPersons : Table Person.id :=
  ⟨[{ id := mergedId, mergedInto := some rootId }, { id := rootId }], by decide⟩

theorem parentOf_mergedPersons {x y : String} (h : parentOf mergedPersons x = some y) :
    y = rootId := by
  obtain ⟨person, hget, hm⟩ := Option.bind_eq_some_iff.mp h
  rcases List.mem_cons.mp (Table.get?_mem hget) with rfl | hmem
  · exact (Option.some.inj hm).symm
  · rw [List.mem_singleton.mp hmem] at hm
    cases hm

/-- A person with an active fact from before the merge. -/
def mergedReader : MemoryDb where
  persons := mergedPersons
  spaces := []
  memberships := []
  facts := ⟨[{ id := 1
               owner := { scopeType := .person, canonicalSubjectPersonId := some mergedId }
               status := .active, reviewState := .verified, validUntil := none }], by decide⟩
  rooted :=
    ⟨fun _ _ h => parentOf_mergedPersons h ▸ (by decide),
      fun _ _ h => parentOf_mergedPersons h ▸ (by decide)⟩
  personIds := by decide
  spaceIds := by decide
  members := by decide
  complete := by decide
  subjects := by decide

/-- Vectors and the authorized scope show the fact of the merged id; the lexical path hides it. -/
theorem merged_fact_hidden :
    ¬((∀ scope ∈ people mergedReader [] rootId [rootId] none true true, ∀ t ∈ scope.2,
          SameFacts mergedReader 0 (fun _ => none) rootId t) ∧
        (∀ t ∈ group mergedReader rootId "", SameFacts mergedReader 0 (fun _ => none) rootId t) ∧
        PersonHidden mergedReader rootId rootId ∧ GroupHidden mergedReader rootId "") := by
  rintro ⟨hpeople, -⟩
  have ht := hpeople (rootId, [personTarget true rootId]) (by decide +kernel)
    (personTarget true rootId) List.mem_cons_self
  exact absurd ht.1 (by decide +kernel)

end Yuki.MemoryReads

import Yuki.Conversation.HistoryIndex

/-! Grouping without the current event. Outside the window that is grouped
again, the source's own groups are those of a fresh grouping. -/

namespace Yuki

/-! Cutting an ascending sequence. -/

theorem filter_le_append {ids : List EventId} (h : ids.Pairwise (· < ·)) (t : EventId) :
    ids.filter (· ≤ t) ++ ids.filter (t < ·) = ids := by
  induction ids with
  | nil => rfl
  | cons id ids ih =>
    obtain ⟨hlt, htail⟩ := List.pairwise_cons.1 h
    by_cases hid : id ≤ t
    · have hngt : ¬ t < id := not_lt.2 hid
      simp [hid, hngt, ih htail]
    · have hgt : t < id := not_le.1 hid
      have hall : ∀ x ∈ ids, t < x := fun x hx => hgt.trans (hlt x hx)
      have hnil : ids.filter (· ≤ t) = [] := by
        rw [List.filter_eq_nil_iff]
        intro x hx
        simpa using hall x hx
      have hself : ids.filter (t < ·) = ids := by
        rw [List.filter_eq_self]
        intro x hx
        simpa using hall x hx
      simp [hid, hgt, hnil, hself]

theorem bisectRight_append {ids later : List EventId} {t : EventId} (h : ∀ id ∈ ids, id ≤ t)
    (hl : ∀ id ∈ later, t < id) : bisectRight (ids ++ later) t = ids.length := by
  unfold bisectRight
  rw [List.takeWhile_append_of_pos (by simpa using h)]
  cases later with
  | nil => simp
  | cons id later =>
    have hid : ¬ id ≤ t := not_le.2 (hl id (by simp))
    simp [hid]

theorem length_filter_ne {ids : List EventId} (hn : ids.Nodup) (c : EventId) :
    ((ids.filter (· ≠ c)).length : Int) = ids.length - if c ∈ ids then 1 else 0 := by
  have herase : ids.filter (· ≠ c) = ids.erase c := by
    rw [List.Nodup.erase_eq_filter hn c]
    refine List.filter_congr fun x _ => ?_
    rw [Bool.eq_iff_iff]
    simp
  rw [herase]
  by_cases hc : c ∈ ids
  · have hpos : 0 < ids.length := List.length_pos_of_mem hc
    rw [List.length_erase_of_mem hc, if_pos hc]
    omega
  · rw [List.erase_of_not_mem hc, if_neg hc]
    omega

namespace PromptHistorySource

/-- The members of a sequence that are not the current event. -/
def without (current : Option EventId) (ids : List EventId) : List EventId :=
  ids.filter (some · ≠ current)

variable {renderer : ChatEventPromptRenderer} {source : PromptHistorySource}
  {rows : List EventRecord}

namespace Built

theorem visible_ascending (h : Built renderer rows source rows)
    (hasc : (rows.map (·.id)).Pairwise (· < ·)) : source.visibleIds.Pairwise (· < ·) := by
  rw [h.visibleIds]
  exact hasc.sublist (List.Sublist.map _ List.filter_sublist)

theorem visible_nodup (h : Built renderer rows source rows)
    (hasc : (rows.map (·.id)).Pairwise (· < ·)) : source.visibleIds.Nodup :=
  (h.visible_ascending hasc).imp ne_of_lt

/-- The source's group of an event begins with its group up to `through`. -/
theorem lookup_group (h : Built renderer rows source rows)
    (hasc : (rows.map (·.id)).Pairwise (· < ·)) {through : EventId} {group : List EventId}
    (hg : group ∈ segments (continuesId renderer rows) (source.visibleIds.filter (· ≤ through)))
    {id : EventId} (hid : id ∈ group) {n : Nat} (hn : source.groupOf.lookup id = some n) :
    ∃ later, source.groups[n]? = some (group ++ later) ∧ ∀ x ∈ later, through < x := by
  have hnodup : source.groups.flatten.Nodup := h.groups_flatten ▸ h.visible_nodup hasc
  rw [h.groupOf, lookup_numbering hnodup] at hn
  obtain ⟨own, hown, hmem⟩ := hn
  obtain ⟨later, hl, hpre⟩ := segments_extend _ hg (source.visibleIds.filter (through < ·))
  rw [filter_le_append (h.visible_ascending hasc), ← h.groups] at hl
  have heq : own = group ++ later :=
    group_unique hnodup (List.mem_of_getElem? hown) hl hmem (by simp [hid])
  refine ⟨later, heq ▸ hown, ?_⟩
  intro x hx
  have hm := hpre.subset hx
  simpa using (List.mem_filter.1 hm).2

/-- Outside the window an event is collected with its own group less the current event. -/
theorem anchorOf_group (h : Built renderer rows source rows)
    (hasc : (rows.map (·.id)).Pairwise (· < ·)) {through : EventId} {group : List EventId}
    (hg : group ∈ segments (continuesId renderer rows) (source.visibleIds.filter (· ≤ through)))
    {id : EventId} (hid : id ∈ group) {n : Nat} (hn : source.groupOf.lookup id = some n)
    {overrides : Dict EventId (List EventId)} (ho : overrides.lookup id = none)
    (current : Option EventId) : source.anchorOf overrides through current id n =
      (group.head?.getD 0, ((without current group).length : Int)) := by
  obtain ⟨later, hl, hlater⟩ := h.lookup_group hasc hg hid hn
  have hsub : ∀ x ∈ group, x ∈ source.visibleIds ∧ x ≤ through := by
    intro x hx
    have hflat : x ∈ (segments (continuesId renderer rows)
        (source.visibleIds.filter (· ≤ through))).flatten := List.mem_flatten_of_mem hg hx
    simpa using hflat
  have hbisect : bisectRight (group ++ later) through = group.length :=
    bisectRight_append (fun x hx => (hsub x hx).2) hlater
  have hhead : (group ++ later).head? = group.head? := by
    rw [List.head?_append_of_ne_nil _ (List.ne_nil_of_mem hid)]
  have hgn : group.Nodup := by
    have hflat : (segments (continuesId renderer rows)
        (source.visibleIds.filter (· ≤ through))).flatten.Nodup := by
      rw [segments_flatten]
      exact (h.visible_nodup hasc).filter _
    exact (List.nodup_flatten.1 hflat).1 group hg
  have hnodup : source.groups.flatten.Nodup := h.groups_flatten ▸ h.visible_nodup hasc
  unfold anchorOf
  simp only [ho, hl, Option.getD_some, hbisect, hhead]
  congr 1
  cases current with
  | none => simp [without]
  | some c =>
    have hin : (decide (c ≤ through) && (source.groupOf.lookup c == some n)) =
        decide (c ∈ group) := by
      rw [h.groupOf, Bool.eq_iff_iff]
      simp only [Bool.and_eq_true, decide_eq_true_eq, beq_iff_eq, lookup_numbering hnodup, hl,
        Option.some.injEq, exists_eq_left', List.mem_append]
      constructor
      · rintro ⟨hle, hc | hc⟩
        · exact hc
        · exact absurd (hlater c hc) (not_lt.2 hle)
      · intro hc
        exact ⟨(hsub c hc).2, .inl hc⟩
    have hlen := length_filter_ne hgn c
    simp only [Option.any_some, hin, decide_eq_true_eq, without]
    simpa using hlen.symm

end Built

/-! The window. -/

/-- The visible events of some rows up to `through`. -/
def shown (renderer : ChatEventPromptRenderer) (through : EventId) (rows : List EventRecord) :
    List EventId :=
  ((rows.filter (·.visible renderer.host)).map (·.id)).filter (· ≤ through)

/-- The scan groups the rows afresh, or stops where an event past the current one opens a
group in both groupings, with that group left out. -/
def Scanned (renderer : ChatEventPromptRenderer) (rows : List EventRecord)
    (source : PromptHistorySource) (current : EventId) (before later : List EventId)
    (result : List (List EventId)) : Prop :=
  result = segments (continuesId renderer rows) (before ++ later) ∨
    ∃ xs y ys opened own, later = xs ++ y :: ys ∧ current < y ∧
      segments (continuesId renderer rows) (before ++ xs ++ [y]) = result ++ [opened] ∧
      own ∈ source.groups ∧ y ∈ own ∧ opened.head? = own.head?

theorem Scanned.cons {current y : EventId} {before later : List EventId}
    {result : List (List EventId)}
    (h : Scanned renderer rows source current (before ++ [y]) later result) :
    Scanned renderer rows source current before (y :: later) result := by
  obtain h | ⟨xs, z, ys, opened, own, rfl, hc, hs, ho, hz, hh⟩ := h
  · exact .inl (by simpa using h)
  · exact .inr ⟨y :: xs, z, ys, opened, own, rfl, hc, by simpa using hs, ho, hz, hh⟩

theorem scanWindow_spec (h : Built renderer rows source rows)
    (hasc : (rows.map (·.id)).Pairwise (· < ·)) (current through : EventId)
    {items : List EventRecord} (hitems : ∀ row ∈ items, row ∈ rows)
    (hitemsAsc : (items.map (·.id)).Pairwise (· < ·)) {before : List EventId}
    (hbefore : ∀ id ∈ before, ∃ row ∈ rows, row.id = id) {passed : Bool}
    (hpassed : passed = true → ∀ row ∈ items, current < row.id) :
    ∃ result, source.scanWindow current through
        (items.map fun row => renderer.rawOf row (row.visible renderer.host))
        (segments (continuesId renderer rows) before) passed = .ok result ∧
      Scanned renderer rows source current before
        (without (some current) (shown renderer through items)) result := by
  have hn : (rows.map (·.id)).Nodup := hasc.imp ne_of_lt
  induction items generalizing before passed with
  | nil => exact ⟨_, rfl, .inl (by simp [without, shown])⟩
  | cons row items ih =>
    have hrow : row ∈ rows := hitems row (by simp)
    have hrest : ∀ r ∈ items, r ∈ rows := fun r hr => hitems r (by simp [hr])
    obtain ⟨hlt, hrestAsc⟩ := List.pairwise_cons.1 hitemsAsc
    have hlater : ∀ r ∈ items, row.id < r.id := fun r hr => hlt _ (List.mem_map_of_mem hr)
    have hrowId : (renderer.rawOf row (row.visible renderer.host)).row.id = row.id := rfl
    have hrowVisible : (renderer.rawOf row (row.visible renderer.host)).visible =
      row.visible renderer.host := rfl
    rw [List.map_cons]
    unfold scanWindow
    simp only [hrowId, hrowVisible]
    by_cases hover : through < row.id
    · have hnone : shown renderer through (row :: items) = [] := by
        unfold shown
        rw [List.filter_eq_nil_iff]
        intro id hid
        obtain ⟨r, hr, rfl⟩ := List.mem_map.1 hid
        obtain rfl | hr := List.mem_cons.1 (List.mem_of_mem_filter hr)
        · simpa using hover
        · simpa using hover.trans (hlater r hr)
      rw [if_pos hover, hnone]
      exact ⟨_, rfl, .inl (by simp [without])⟩
    · rw [if_neg hover]
      by_cases hcur : row.id = current
      · have hskip : without (some current) (shown renderer through (row :: items)) =
            without (some current) (shown renderer through items) := by
          by_cases hv : row.visible renderer.host = true
          · simp [without, shown, hv, hcur, List.filter_cons]
            split <;> simp
          · simp [shown, hv]
        rw [if_pos hcur, hskip]
        exact ih hrest hrestAsc hbefore fun _ r hr => hcur ▸ hlater r hr
      · rw [if_neg hcur]
        have hpassed' : passed = true → ∀ r ∈ items, current < r.id :=
          fun hp r hr => hpassed hp r (by simp [hr])
        by_cases hv : row.visible renderer.host = true
        · have hkeep : without (some current) (shown renderer through (row :: items)) =
              row.id :: without (some current) (shown renderer through items) := by
            have hle : row.id ≤ through := not_lt.1 hover
            simp [without, shown, hv, hle, hcur]
          have hmembers : ∀ g ∈ segments (continuesId renderer rows) before, ∀ id ∈ g,
              ∃ r ∈ rows, r.id = id := by
            intro g hg id hid
            refine hbefore id ?_
            rw [← segments_flatten (continuesId renderer rows) before]
            exact List.mem_flatten_of_mem hg hid
          have hgroups := addToGroups_ok hn (fun r hr => at_ok h.metadata h.positions hn hr)
            (fun r hr => hr) (fun g hg => segments_ne_nil _ hg) hmembers hrow
            (row.visible renderer.host)
          rw [← segments_snoc, hv] at hgroups
          obtain ⟨own, hown, hmem⟩ : ∃ own ∈ source.groups, row.id ∈ own := by
            rw [← List.mem_flatten, h.groups_flatten, h.mem_visibleIds]
            exact ⟨row, hrow, hv, rfl⟩
          obtain ⟨n, hlt', hn'⟩ := List.getElem_of_mem hown
          have hget : source.groups[n]? = some own := by rw [← hn', List.getElem?_eq_getElem]
          have hlookup : source.groupOf.lookup row.id = some n := by
            rw [h.groupOf, lookup_numbering (h.groups_flatten ▸ h.visible_nodup hasc)]
            exact ⟨own, hget, hmem⟩
          obtain ⟨gs, opened, hopen⟩ :=
            exists_last_segment (continuesId renderer rows) before row.id
          rw [hkeep]
          simp only [hv, Bool.not_true, Bool.false_eq_true, if_false, hgroups, bind, Except.bind,
            hlookup, Option.bind_some, hget, hopen, List.getLast?_concat, List.dropLast_concat]
          by_cases hstop : (passed && opened.head? == own.head?) = true
          · rw [if_pos hstop]
            obtain ⟨hp, hh⟩ := (Bool.and_eq_true _ _).mp hstop
            exact ⟨gs, rfl, .inr ⟨[], row.id, _, opened, own, rfl, hpassed hp row (by simp),
              by simpa using hopen, hown, hmem, by simpa using hh⟩⟩
          · rw [if_neg hstop, ← hopen]
            have hbefore' : ∀ id ∈ before ++ [row.id], ∃ r ∈ rows, r.id = id := by
              intro id hid
              obtain hid | hid := List.mem_append.1 hid
              · exact hbefore id hid
              · exact ⟨row, hrow, (List.mem_singleton.1 hid).symm⟩
            obtain ⟨result, hscan, hspec⟩ := ih hrest hrestAsc hbefore' hpassed'
            exact ⟨result, hscan, hspec.cons⟩
        · have hskip : shown renderer through (row :: items) = shown renderer through items := by
            simp [shown, hv]
          have hhidden : row.visible renderer.host = false := by simpa using hv
          rw [hskip]
          simp only [hhidden, Bool.not_false, if_true]
          exact ih hrest hrestAsc hbefore hpassed'

/-! Each group of a fresh grouping is either grouped again by the scan, or is one of the
source's groups less the current event. -/

section

variable (cont : EventId → EventId → EventId → Bool)

def Resolves (current : Option EventId) (result own fresh : List (List EventId)) : Prop :=
  ∀ group ∈ fresh, group ∈ result ∨ (∀ id ∈ group, id ∉ result.flatten) ∧
    ∃ whole ∈ own, whole.head? = group.head? ∧ without current whole = group

theorem without_eq_self {current : Option EventId} {ids : List EventId}
    (h : ∀ id ∈ ids, some id ≠ current) : without current ids = ids := by
  unfold without
  rw [List.filter_eq_self]
  intro id hid
  simpa using h id hid

theorem without_append (current : Option EventId) (ids later : List EventId) :
    without current (ids ++ later) = without current ids ++ without current later :=
  List.filter_append _ _

theorem mem_of_mem_segments {ids group : List EventId} (hg : group ∈ segments cont ids)
    {id : EventId} (hid : id ∈ group) : id ∈ ids := by
  rw [← segments_flatten cont ids]
  exact List.mem_flatten_of_mem hg hid

/-- Without the current event among the shown ones nothing changes. -/
theorem resolves_absent {current : Option EventId} {ids : List EventId}
    (h : ∀ id ∈ ids, some id ≠ current) :
    Resolves current [] (segments cont ids) (segments cont (without current ids)) := by
  intro group hg
  rw [without_eq_self h] at hg
  refine .inr ⟨by simp, group, hg, rfl, without_eq_self fun id hid => ?_⟩
  exact h id (mem_of_mem_segments cont hg hid)

/-- The last shown event can only be missing from the end of a group. -/
theorem resolves_last {current : EventId} {ids : List EventId} (hn : (ids ++ [current]).Nodup) :
    Resolves (some current) [] (segments cont (ids ++ [current]))
      (segments cont (without (some current) (ids ++ [current]))) := by
  have hne : ∀ id ∈ ids, some id ≠ some current := by
    rw [List.nodup_append] at hn
    intro id hid he
    exact hn.2.2 id hid current (by simp) (Option.some.inj he)
  have hwithout : without (some current) (ids ++ [current]) = ids := by
    rw [without_append, without_eq_self hne]
    simp [without]
  rw [hwithout]
  intro group hg
  obtain ⟨later, hl, hpre⟩ := segments_extend cont hg [current]
  have hgne := segments_ne_nil cont hg
  refine .inr ⟨by simp, group ++ later, hl, List.head?_append_of_ne_nil _ hgne, ?_⟩
  have hself : without (some current) group = group :=
    without_eq_self fun id hid => hne id (mem_of_mem_segments cont hg hid)
  have hlater : without (some current) later = [] := by
    unfold without
    rw [List.filter_eq_nil_iff]
    intro id hid
    have hm := hpre.subset hid
    simpa using hm
  rw [without_append, hself, hlater, List.append_nil]

/-- After the stop, the open group is one of the source's groups less the current event, and
the groups after it are the source's own. -/
theorem resolves_stop {current y : EventId} {before xs xs' ys : List EventId}
    {pre result : List (List EventId)} {opened opened' : List EventId} {gs : List (List EventId)}
    (hn : (before ++ xs ++ y :: ys).Nodup) (hxs : without (some current) xs = xs')
    (hys : without (some current) ys = ys) (hbefore : without (some current) before = before)
    (hy : y ≠ current)
    (hown : segments cont (before ++ xs ++ [y]) = gs ++ [opened])
    (hfresh : segments cont (before ++ xs' ++ [y]) = pre ++ result ++ [opened'])
    (hhead : opened.head? = opened'.head?) :
    ∃ later, segments cont (before ++ xs' ++ y :: ys) = pre ++ result ++ later ∧
      ∀ group ∈ later, ∃ whole ∈ segments cont (before ++ xs ++ y :: ys),
        whole.head? = group.head? ∧ without (some current) whole = group := by
  have hlast : opened.getLast? = opened'.getLast? := by
    rw [segments_last cont hown, segments_last cont hfresh]
  obtain ⟨zs, rest, ho, hf, hz⟩ := segments_resync cont hown hfresh hhead hlast ys
  rw [List.append_assoc, List.singleton_append] at ho hf
  have hsub : ∀ id ∈ ys, some id ≠ some current := by
    intro id hid
    rw [← hys] at hid
    simpa [without] using (List.mem_filter.1 hid).2
  have hzs : without (some current) zs = zs :=
    without_eq_self fun id hid => hsub id (by rw [← hz]; simp [hid])
  have hopenedNe : opened ≠ [] := by
    refine segments_ne_nil cont (?_ : opened ∈ segments cont (before ++ xs ++ [y]))
    rw [hown]
    simp
  have hopenedNe' : opened' ≠ [] := by
    refine segments_ne_nil cont (?_ : opened' ∈ segments cont (before ++ xs' ++ [y]))
    rw [hfresh]
    simp
  -- both open groups reach from the same first event to `y`
  have hwhole : without (some current) opened = opened' := by
    obtain ⟨first, tail, rfl⟩ := List.exists_cons_of_ne_nil hopenedNe
    obtain ⟨first', tail', rfl⟩ := List.exists_cons_of_ne_nil hopenedNe'
    obtain rfl : first = first' := by simpa using hhead
    have hflat : before ++ xs ++ [y] = gs.flatten ++ first :: tail := by
      rw [← segments_flatten cont (before ++ xs ++ [y]), hown]
      simp
    have hflat' : before ++ xs' ++ [y] = (pre ++ result).flatten ++ first :: tail' := by
      rw [← segments_flatten cont (before ++ xs' ++ [y]), hfresh]
      simp
    have hkept : without (some current) (before ++ xs ++ [y]) = before ++ xs' ++ [y] := by
      rw [without_append, without_append, hbefore, hxs]
      simp [without, hy]
    have hfirst : some first ≠ some current := by
      have hm : first ∈ without (some current) (before ++ xs ++ [y]) := by
        rw [hkept, hflat']
        simp
      simpa [without] using (List.mem_filter.1 hm).2
    have hcons : without (some current) (first :: tail) =
        first :: without (some current) tail := by
      unfold without
      rw [List.filter_cons_of_pos (by simpa using hfirst)]
    have heq : without (some current) gs.flatten ++ first :: without (some current) tail =
        (pre ++ result).flatten ++ first :: tail' := by
      rw [← hcons, ← without_append, ← hflat, hkept, hflat']
    have hnodup : (without (some current) gs.flatten ++
        first :: without (some current) tail).Nodup := by
      rw [← hcons, ← without_append, ← hflat]
      refine List.Nodup.filter _ (List.Nodup.sublist ?_ hn)
      simp
    rw [hcons, (split_unique hnodup heq).2]
  refine ⟨(opened' ++ zs) :: rest, hf, ?_⟩
  intro group hg
  obtain rfl | hg := List.mem_cons.1 hg
  · refine ⟨opened ++ zs, by rw [ho]; simp, ?_, ?_⟩
    · rw [List.head?_append_of_ne_nil _ hopenedNe, List.head?_append_of_ne_nil _ hopenedNe', hhead]
    · rw [without_append, hwhole, hzs]
  · refine ⟨group, by rw [ho]; simp [hg], rfl, without_eq_self fun id hid => hsub id ?_⟩
    rw [← hz]
    exact List.mem_append_right _ (List.mem_flatten_of_mem hg hid)

/-- Grouping starts afresh at the window: nothing is before it, or its first event stays. -/
theorem segments_window {ids all : List EventId} {pre post : List (List EventId)}
    (h : segments cont all = pre ++ post)
    (hstart : pre = [] ∨ ∃ x, post.flatten.head? = some x ∧ ids.head? = some x) :
    segments cont (pre.flatten ++ ids) = pre ++ segments cont ids := by
  obtain rfl | ⟨x, hx, hids⟩ := hstart
  · rfl
  · exact segments_restart cont h hx hids

theorem head?_snoc_append {ids later : List EventId} {x : EventId} :
    (ids ++ x :: later).head? = (ids ++ [x]).head? := by
  cases ids <;> rfl

theorem Scanned.resolves {current through : EventId} {pre post result : List (List EventId)}
    (h : Built renderer rows source rows) (hasc : (rows.map (·.id)).Pairwise (· < ·))
    (hgroups : source.groups = pre ++ post) (hpre : ∀ id ∈ pre.flatten, id ≤ through ∧ id ≠ current)
    (hstart : pre = [] ∨ ∃ x, post.flatten.head? = some x ∧
      (post.flatten.filter (· ≤ through)).head? = some x ∧
      (without (some current) (post.flatten.filter (· ≤ through))).head? = some x)
    (hscan : Scanned renderer rows source current []
      (without (some current) (post.flatten.filter (· ≤ through))) result) :
    Resolves (some current) result
      (segments (continuesId renderer rows) (source.visibleIds.filter (· ≤ through)))
      (segments (continuesId renderer rows)
        (without (some current) (source.visibleIds.filter (· ≤ through)))) := by
  have hv : source.visibleIds = pre.flatten ++ post.flatten := by
    rw [← h.groups_flatten, hgroups, List.flatten_append]
  have hbelow : source.visibleIds.filter (· ≤ through) =
      pre.flatten ++ post.flatten.filter (· ≤ through) := by
    rw [hv, List.filter_append, List.filter_eq_self.2]
    intro id hid
    simpa using (hpre id hid).1
  have hbefore : without (some current) pre.flatten = pre.flatten :=
    without_eq_self fun id hid he => (hpre id hid).2 (Option.some.inj he)
  have hS : segments (continuesId renderer rows) source.visibleIds = pre ++ post := by
    rw [← h.groups, hgroups]
  set shown := post.flatten.filter (· ≤ through) with hshown
  have hown : segments (continuesId renderer rows) (pre.flatten ++ shown) =
      pre ++ segments (continuesId renderer rows) shown :=
    segments_window _ hS (hstart.imp_right fun ⟨x, h₁, h₂, _⟩ => ⟨x, h₁, h₂⟩)
  have hfresh : segments (continuesId renderer rows) (pre.flatten ++ without (some current) shown) =
      pre ++ segments (continuesId renderer rows) (without (some current) shown) :=
    segments_window _ hS (hstart.imp_right fun ⟨x, h₁, _, h₃⟩ => ⟨x, h₁, h₃⟩)
  have hnodup : (pre.flatten ++ shown).Nodup := by
    rw [← hbelow]
    exact (h.visible_nodup hasc).filter _
  have hdisjoint : ∀ id ∈ pre.flatten, id ∉ without (some current) shown := by
    intro id hid hm
    exact (List.nodup_append.1 hnodup).2.2 id hid id (List.mem_of_mem_filter hm) rfl
  have hkeptNodup : (without (some current) shown).Nodup :=
    ((List.nodup_append.1 hnodup).2.1).filter _
  -- the groups before the window are the source's own
  have hleft : (∀ id ∈ result.flatten, id ∈ without (some current) shown) →
      ∀ group ∈ pre, (∀ id ∈ group, id ∉ result.flatten) ∧
        ∃ whole ∈ pre ++ segments (continuesId renderer rows) shown,
          whole.head? = group.head? ∧ without (some current) whole = group := by
    intro hsub group hg
    refine ⟨?_, group, by simp [hg], rfl, ?_⟩
    · intro id hid hm
      exact hdisjoint id (List.mem_flatten_of_mem hg hid) (hsub id hm)
    · refine without_eq_self fun id hid he => ?_
      exact (hpre id (List.mem_flatten_of_mem hg hid)).2 (Option.some.inj he)
  rw [hbelow, without_append, hbefore, hown, hfresh]
  obtain hscan | ⟨xs, y, ys, opened, own, hsplit, hy, hopened, hmem, hyown, hhead⟩ := hscan
  · rw [List.nil_append] at hscan
    have hsub : ∀ id ∈ result.flatten, id ∈ without (some current) shown := by
      rw [hscan, segments_flatten]
      exact fun id hid => hid
    intro group hg
    obtain hg | hg := List.mem_append.1 hg
    · exact .inr (hleft hsub group hg)
    · exact .inl (hscan ▸ hg)
  · rw [List.nil_append] at hopened
    have hyc : y ≠ current := hy.ne'
    have hyShown : y ∈ shown := by
      have hm : y ∈ without (some current) shown := by simp [hsplit]
      exact List.mem_of_mem_filter hm
    obtain ⟨ps, qs, hps⟩ := List.append_of_mem hyShown
    have hwithout : without (some current) ps ++ y :: without (some current) qs =
        xs ++ y :: ys := by
      rw [← hsplit, hps, without_append]
      simp [without, hyc]
    have hnodup' : (without (some current) ps ++ y :: without (some current) qs).Nodup := by
      rw [hwithout, ← hsplit]
      exact hkeptNodup
    obtain ⟨hxs, hys⟩ := split_unique hnodup' hwithout
    have hqs : without (some current) qs = qs := by
      have hsorted : (pre.flatten ++ shown).Pairwise (· < ·) := by
        rw [← hbelow]
        exact (h.visible_ascending hasc).filter _
      rw [hps] at hsorted
      refine without_eq_self fun id hid he => ?_
      have hlt := ((List.pairwise_cons.1 ((List.pairwise_append.1
        (List.pairwise_append.1 hsorted).2.1).2.1)).1 id hid)
      rw [Option.some.inj he] at hlt
      exact absurd (hy.trans hlt) (lt_irrefl _)
    -- the source's group of `y` opens with the same event
    obtain ⟨gs, whole, hwhole⟩ :=
      exists_last_segment (continuesId renderer rows) (pre.flatten ++ ps) y
    have hlast := segments_last _ hwhole
    have hwholeMem : whole ∈ segments (continuesId renderer rows) (pre.flatten ++ ps ++ [y]) := by
      rw [hwhole]
      simp
    have hwholeHead : whole.head? = own.head? := by
      obtain ⟨later, hl, -⟩ := segments_extend _ hwholeMem
        (qs ++ post.flatten.filter (through < ·))
      have hall : pre.flatten ++ ps ++ [y] ++ (qs ++ post.flatten.filter (through < ·)) =
          source.visibleIds := by
        have hsorted : post.flatten.Pairwise (· < ·) :=
          (List.pairwise_append.1 (hv ▸ h.visible_ascending hasc)).2.1
        have hcut := filter_le_append hsorted through
        rw [← hshown, hps] at hcut
        rw [hv]
        conv_rhs => rw [← hcut]
        simp only [List.append_assoc, List.cons_append, List.nil_append]
      rw [hall, ← h.groups] at hl
      have heq : own = whole ++ later :=
        group_unique (h.groups_flatten ▸ h.visible_nodup hasc) hmem hl hyown
          (List.mem_append_left _ (List.mem_of_getLast? hlast))
      rw [heq, List.head?_append_of_ne_nil _ (segments_ne_nil _ hwholeMem)]
    have hfreshY : segments (continuesId renderer rows) (pre.flatten ++ xs ++ [y]) =
        pre ++ result ++ [opened] := by
      rw [List.append_assoc, List.append_assoc, ← hopened]
      refine segments_window _ hS (hstart.imp_right fun ⟨x, h₁, _, h₃⟩ => ⟨x, h₁, ?_⟩)
      rw [← h₃, hsplit]
      exact head?_snoc_append.symm
    rw [hps, ← List.append_assoc] at hnodup
    obtain ⟨later, hlater, hwholes⟩ := resolves_stop _ hnodup hxs hqs hbefore hyc hwhole hfreshY
      (hwholeHead.trans hhead.symm)
    have hresult : segments (continuesId renderer rows) (without (some current) shown) =
        result ++ later := by
      have hh := hlater
      rw [List.append_assoc, ← hqs, hys, ← hsplit, hfresh, List.append_assoc] at hh
      exact List.append_cancel_left hh
    have hflat : result.flatten ++ later.flatten = without (some current) shown := by
      rw [← List.flatten_append, ← hresult, segments_flatten]
    have hown' : pre ++ segments (continuesId renderer rows) shown =
        segments (continuesId renderer rows) (pre.flatten ++ ps ++ y :: qs) := by
      rw [← hown, hps, List.append_assoc]
    intro group hg
    rw [hresult] at hg
    obtain hg | hg := List.mem_append.1 hg
    · refine .inr (hleft (fun id hid => ?_) group hg)
      rw [← hflat]
      exact List.mem_append_left _ hid
    · obtain hg | hg := List.mem_append.1 hg
      · exact .inl hg
      · refine .inr ⟨?_, ?_⟩
        · intro id hid hm
          rw [← hflat] at hkeptNodup
          exact (List.nodup_append.1 hkeptNodup).2.2 id hm id (List.mem_flatten_of_mem hg hid) rfl
        · rw [hown']
          exact hwholes group hg

end

/-- The overrides of some groups: every member with its group. -/
def overridesOf (groups : List (List EventId)) : Dict EventId (List EventId) :=
  Dict.ofList (groups.flatMap fun ids => ids.map fun id => (id, ids))

theorem overridesOf_keys (groups : List (List EventId)) :
    Dict.keys (groups.flatMap fun ids => ids.map fun id => (id, ids)) = groups.flatten := by
  induction groups with
  | nil => rfl
  | cons g groups ih =>
    simp only [Dict.keys] at ih
    simp [Dict.keys, List.flatMap_cons, ih, Function.comp_def]

theorem lookup_overridesOf {groups : List (List EventId)} (hn : groups.flatten.Nodup)
    {group : List EventId} (hg : group ∈ groups) {id : EventId} (hid : id ∈ group) :
    (overridesOf groups).lookup id = some group := by
  have hkeys := overridesOf_keys groups
  unfold overridesOf
  rw [Dict.ofList_of_nodup (by rwa [hkeys])]
  refine Dict.lookup_of_mem (by rwa [hkeys]) ?_
  exact List.mem_flatMap.2 ⟨group, hg, List.mem_map.2 ⟨id, hid, rfl⟩⟩

theorem lookup_overridesOf_none {groups : List (List EventId)} (hn : groups.flatten.Nodup)
    {id : EventId} (hid : id ∉ groups.flatten) : (overridesOf groups).lookup id = none := by
  have hkeys := overridesOf_keys groups
  unfold overridesOf
  rw [Dict.ofList_of_nodup (by rwa [hkeys])]
  exact Dict.lookup_eq_none (by rwa [hkeys])

theorem Scanned.nodup {current : EventId} {ids : List EventId} {result : List (List EventId)}
    (h : Scanned renderer rows source current [] ids result) (hn : ids.Nodup) :
    result.flatten.Nodup := by
  obtain h | ⟨xs, y, ys, opened, own, rfl, -, hs, -, -, -⟩ := h
  · rwa [h, List.nil_append, segments_flatten]
  · rw [List.nil_append] at hs
    have hflat := segments_flatten (continuesId renderer rows) (xs ++ [y])
    rw [hs, List.flatten_append] at hflat
    have hsub : (result.flatten ++ [opened].flatten).Nodup := by
      rw [hflat]
      exact List.Nodup.sublist (by simp) hn
    exact (List.nodup_append.1 hsub).1

/-- The row at the head of a group is where its events start in the index. -/
theorem Built.window_rows (h : Built renderer rows source rows)
    (hasc : (rows.map (·.id)).Pairwise (· < ·)) {before after : List EventId} {first : EventId}
    (hv : source.visibleIds = before ++ first :: after) :
    ∃ start, source.positions.lookup first = some start ∧
      ((rows.drop start).filter (·.visible renderer.host)).map (·.id) = first :: after := by
  have hn : (rows.map (·.id)).Nodup := hasc.imp ne_of_lt
  obtain ⟨row, hrow, hvis, rfl⟩ := h.mem_visibleIds.1
    (show first ∈ source.visibleIds by rw [hv]; simp)
  obtain ⟨start, hlt, hget⟩ := List.getElem_of_mem hrow
  refine ⟨start, ?_, ?_⟩
  · rw [h.positions]
    refine Dict.lookup_of_mem (by rwa [positions_keys]) (List.mem_map.2 ⟨(row, start), ?_, rfl⟩)
    rw [List.mem_zipIdx_iff_getElem?, ← hget, List.getElem?_eq_getElem]
  · have hdrop : rows.drop start = row :: rows.drop (start + 1) := by
      rw [List.drop_eq_getElem_cons hlt, hget]
    have hsplit : source.visibleIds =
        ((rows.take start).filter (·.visible renderer.host)).map (·.id) ++
          ((rows.drop start).filter (·.visible renderer.host)).map (·.id) := by
      rw [h.visibleIds, ← List.map_append, ← List.filter_append, List.take_append_drop]
    have hnodup := h.visible_nodup hasc
    rw [hv, hdrop, List.filter_cons_of_pos hvis, List.map_cons] at hsplit
    rw [hv] at hnodup
    rw [hdrop, List.filter_cons_of_pos hvis, List.map_cons, (split_unique hnodup hsplit).2]

/-- The scan from the group before the current event's, unless that event is the last shown. -/
theorem scan_resolves (h : Built renderer rows source rows)
    (hasc : (rows.map (·.id)).Pairwise (· < ·)) {current through : EventId} {number : Nat}
    (hlookup : source.groupOf.lookup current = some number)
    (hlast : (source.visibleIds.filter (· ≤ through)).getLast? ≠ some current) :
    ∃ start result,
      source.positions.lookup (((source.groups[number - 1]?).getD []).head?.getD 0) = some start ∧
      source.scanWindow current through (source.metadata.drop start) [] false = .ok result ∧
      result.flatten.Nodup ∧ Resolves (some current) result
        (segments (continuesId renderer rows) (source.visibleIds.filter (· ≤ through)))
        (segments (continuesId renderer rows)
          (without (some current) (source.visibleIds.filter (· ≤ through)))) := by
  have hnodup : source.groups.flatten.Nodup := h.groups_flatten ▸ h.visible_nodup hasc
  rw [h.groupOf, lookup_numbering hnodup] at hlookup
  obtain ⟨own, hown, hc⟩ := hlookup
  obtain ⟨hlt, -⟩ := List.getElem?_eq_some_iff.1 hown
  have hsplit : source.groups.take (number - 1) ++ source.groups.drop (number - 1) =
      source.groups := List.take_append_drop _ _
  obtain ⟨firstGroup, hfirst⟩ : ∃ g, source.groups[number - 1]? = some g :=
    ⟨_, List.getElem?_eq_getElem (by omega)⟩
  obtain ⟨first, tail, rfl⟩ := List.exists_cons_of_ne_nil
    (h.groups_ne_nil firstGroup (List.mem_of_getElem? hfirst))
  have hdrop : source.groups.drop (number - 1) =
      (first :: tail) :: source.groups.drop (number - 1 + 1) := by
    obtain ⟨hl, hg⟩ := List.getElem?_eq_some_iff.1 hfirst
    rw [List.drop_eq_getElem_cons hl, hg]
  set pre := source.groups.take (number - 1) with hpre
  set post := source.groups.drop (number - 1) with hpost
  have hv : source.visibleIds = pre.flatten ++ post.flatten := by
    rw [← h.groups_flatten, ← hsplit, List.flatten_append]
  have hpostHead : post.flatten = first :: (tail ++
      (source.groups.drop (number - 1 + 1)).flatten) := by
    rw [hdrop]
    simp
  obtain ⟨start, hstart, hitems⟩ := h.window_rows hasc (hpostHead ▸ hv)
  have hasc' := h.visible_ascending hasc
  have hnv := h.visible_nodup hasc
  have hcpost : current ∈ post.flatten := by
    have hget : post[number - (number - 1)]? = some own := by
      rw [hpost, List.getElem?_drop, ← hown]
      congr 1
      omega
    exact List.mem_flatten_of_mem (List.mem_of_getElem? hget) hc
  have hcpre : current ∉ pre.flatten := by
    rw [hv] at hnv
    intro hm
    exact (List.nodup_append.1 hnv).2.2 _ hm _ hcpost rfl
  have hshown : shown renderer through (rows.drop start) = post.flatten.filter (· ≤ through) := by
    unfold shown
    rw [hitems, ← hpostHead]
  have hrows : ∀ row ∈ rows.drop start, row ∈ rows := fun row hr => List.mem_of_mem_drop hr
  have hrowsAsc : ((rows.drop start).map (·.id)).Pairwise (· < ·) := by
    rw [List.map_drop]
    exact hasc.sublist (List.drop_sublist _ _)
  have hbefore : ∀ id ∈ ([] : List EventId), ∃ row ∈ rows, row.id = id := by simp
  have hpassed : false = true → ∀ row ∈ rows.drop start, current < row.id := by simp
  obtain ⟨result, hscan, hspec⟩ :=
    scanWindow_spec h hasc current through hrows hrowsAsc hbefore hpassed
  rw [hshown] at hspec
  have hsorted : post.flatten.Pairwise (· < ·) := (List.pairwise_append.1 (hv ▸ hasc')).2.1
  have hcross : ∀ x ∈ pre.flatten, ∀ y ∈ post.flatten, x < y :=
    (List.pairwise_append.1 (hv ▸ hasc')).2.2
  refine ⟨start, result, by rw [hfirst]; exact hstart, ?_, ?_, ?_⟩
  · rw [h.metadata, ← List.map_drop]
    exact hscan
  · exact hspec.nodup (List.Nodup.filter _ (List.Nodup.filter _ (hsorted.imp ne_of_lt)))
  · by_cases hnone : without (some current) (post.flatten.filter (· ≤ through)) = []
    · have hresult : result = [] := by
        rw [hnone] at hspec
        obtain hr | ⟨xs, y, ys, opened, own, hxs, -⟩ := hspec
        · exact hr
        · exact absurd hxs (by simp)
      rw [hresult]
      refine resolves_absent _ fun id hid he => hlast ?_
      -- the current event would be the last shown
      have hle : current ≤ through := by
        rw [← Option.some.inj he]
        simpa using (List.mem_filter.1 hid).2
      have hne : post.flatten.filter (· ≤ through) ≠ [] :=
        List.ne_nil_of_mem (List.mem_filter.2 ⟨hcpost, by simpa using hle⟩)
      rw [hv, List.filter_append, List.getLast?_append_of_ne_nil _ hne,
        List.getLast?_eq_some_getLast hne, Option.some.injEq]
      have hm := List.getLast_mem hne
      by_contra hother
      have hkept : (post.flatten.filter (· ≤ through)).getLast hne ∈
          without (some current) (post.flatten.filter (· ≤ through)) :=
        List.mem_filter.2 ⟨hm, by simpa using hother⟩
      rw [hnone] at hkept
      exact absurd hkept (by simp)
    · obtain ⟨kept, hkept⟩ := List.exists_mem_of_ne_nil _ hnone
      have hkeptPost := List.mem_filter.1 (List.mem_of_mem_filter hkept)
      have hkeptLe : kept ≤ through := by simpa using hkeptPost.2
      have hpreLe : ∀ id ∈ pre.flatten, id ≤ through ∧ id ≠ current := by
        intro id hid
        refine ⟨(hcross id hid kept hkeptPost.1).le.trans hkeptLe, ?_⟩
        rintro rfl
        exact hcpre hid
      refine hspec.resolves h hasc hsplit.symm hpreLe ?_
      by_cases hzero : number = 0
      · exact .inl (by rw [hpre, hzero, Nat.zero_sub, List.take_zero])
      · have hfirstNe : first ≠ current := by
          intro he
          have h₁ : (numbering source.groups).lookup first = some (number - 1) :=
            (lookup_numbering hnodup).2 ⟨_, hfirst, by simp⟩
          have h₂ : (numbering source.groups).lookup first = some number :=
            (lookup_numbering hnodup).2 ⟨own, hown, he ▸ hc⟩
          have hsame := Option.some.inj (h₁.symm.trans h₂)
          omega
        have hfirstLe : first ≤ through := by
          rw [hpostHead] at hsorted hkeptPost
          obtain he | hm := List.mem_cons.1 hkeptPost.1
          · exact he ▸ hkeptLe
          · exact ((List.pairwise_cons.1 hsorted).1 _ hm).le.trans hkeptLe
        refine .inr ⟨first, by rw [hpostHead]; rfl, ?_, ?_⟩
        · rw [hpostHead, List.filter_cons_of_pos (by simpa using hfirstLe)]
          rfl
        · unfold without
          rw [hpostHead, List.filter_cons_of_pos (by simpa using hfirstLe),
            List.filter_cons_of_pos (by simpa using hfirstNe)]
          rfl

/-- The overrides settle the group of every shown event but the current one. -/
theorem excludedGroups_spec (h : Built renderer rows source rows)
    (hasc : (rows.map (·.id)).Pairwise (· < ·)) (current : Option EventId) (through : EventId) :
    ∃ result, source.excludedGroups current through = .ok (overridesOf result) ∧
      result.flatten.Nodup ∧ Resolves current result
        (segments (continuesId renderer rows) (source.visibleIds.filter (· ≤ through)))
        (segments (continuesId renderer rows)
          (without current (source.visibleIds.filter (· ≤ through)))) := by
  have hnodup : source.groups.flatten.Nodup := h.groups_flatten ▸ h.visible_nodup hasc
  have hshown := filter_le_append (h.visible_ascending hasc) through
  cases current with
  | none => exact ⟨[], rfl, by simp, resolves_absent _ (by simp)⟩
  | some current =>
    unfold excludedGroups
    cases hlookup : source.groupOf.lookup current with
    | none =>
      simp only [hlookup]
      refine ⟨[], rfl, by simp, resolves_absent _ fun id hid he => ?_⟩
      have hmem : current ∈ source.groups.flatten := by
        rw [h.groups_flatten, ← Option.some.inj he]
        exact List.mem_of_mem_filter hid
      obtain ⟨group, hg, hc⟩ := List.mem_flatten.1 hmem
      obtain ⟨n, hlt, hn⟩ := List.getElem_of_mem hg
      have hsome : source.groupOf.lookup current = some n := by
        rw [h.groupOf, lookup_numbering hnodup]
        exact ⟨group, by rw [← hn, List.getElem?_eq_getElem], hc⟩
      rw [hsome] at hlookup
      exact absurd hlookup (by simp)
    | some number =>
      have hend : bisectRight source.visibleIds through =
          (source.visibleIds.filter (· ≤ through)).length := by
        conv_lhs => rw [← hshown]
        refine bisectRight_append (fun id hid => ?_) (fun id hid => ?_)
        · simpa using (List.mem_filter.1 hid).2
        · simpa using (List.mem_filter.1 hid).2
      have hlast : (bisectRight source.visibleIds through ≠ 0 ∧
          source.visibleIds[bisectRight source.visibleIds through - 1]? = some current) ↔
          (source.visibleIds.filter (· ≤ through)).getLast? = some current := by
        rw [hend, List.getLast?_eq_getElem?]
        cases hids : source.visibleIds.filter (· ≤ through) with
        | nil => simp
        | cons id ids =>
          have hget : source.visibleIds[(id :: ids).length - 1]? =
              (id :: ids)[(id :: ids).length - 1]? := by
            conv_lhs => rw [← hshown, hids]
            rw [List.getElem?_append_left (by simp)]
          rw [hget]
          simp
      simp only [hlookup, hlast]
      by_cases hc : (source.visibleIds.filter (· ≤ through)).getLast? = some current
      · rw [if_pos hc]
        obtain ⟨ids, hids⟩ := List.getLast?_eq_some_iff.1 hc
        rw [hids]
        refine ⟨[], rfl, by simp, resolves_last _ ?_⟩
        rw [← hids]
        exact (h.visible_nodup hasc).filter _
      · obtain ⟨start, result, hpos, hscan, hn, hres⟩ := scan_resolves h hasc hlookup hc
        rw [if_neg hc]
        simp only [hpos, hscan, bind, Except.bind, pure, Except.pure]
        exact ⟨result, rfl, hn, hres⟩

end PromptHistorySource

end Yuki

import Yuki.Conversation.HistoryWindow

/-! Rendering from the index equals rendering from scratch. -/

namespace Yuki

/-- A part of a sequence without repeated keys is the sequence cut down to its keys. -/
theorem eq_filter_of_sublist {α : Type} (key : α → EventId) {part all : List α}
    (h : part.Sublist all) (hn : (all.map key).Nodup) :
    part = all.filter (key · ∈ part.map key) := by
  induction h with
  | slnil => rfl
  | @cons part all x h ih =>
    obtain ⟨hx, hn'⟩ := List.nodup_cons.1 hn
    have hnot : key x ∉ part.map key := fun hm => hx ((h.map key).subset hm)
    rw [List.filter_cons_of_neg (by simpa using hnot)]
    exact ih hn'
  | @cons_cons part all x h ih =>
    obtain ⟨hx, hn'⟩ := List.nodup_cons.1 hn
    rw [List.filter_cons_of_pos (by simp)]
    conv_lhs => rw [ih hn']
    congr 1
    refine List.filter_congr fun y hy => ?_
    have hne : key y ≠ key x := fun he => hx (he ▸ List.mem_map_of_mem hy)
    simp [hne]

/-- Without repetition one of the parts holds an item. -/
theorem countP_mem_flatten {α : Type} [DecidableEq α] {parts : List (List α)}
    (hn : parts.flatten.Nodup) {x : α} (hx : x ∈ parts.flatten) :
    parts.countP (fun part => decide (x ∈ part)) = 1 := by
  induction parts with
  | nil => simp at hx
  | cons part parts ih =>
    rw [List.flatten_cons, List.nodup_append] at hn
    by_cases hpart : x ∈ part
    · have hrest : parts.countP (fun part => decide (x ∈ part)) = 0 := by
        rw [List.countP_eq_zero]
        intro other ho
        simpa using fun hm => hn.2.2 x hpart x (List.mem_flatten_of_mem ho hm) rfl
      rw [List.countP_cons_of_pos (by simpa using hpart), hrest]
    · have hx' : x ∈ parts.flatten := (List.mem_append.1 (List.flatten_cons ▸ hx)).resolve_left hpart
      rw [List.countP_cons_of_neg (by simpa using hpart), ih hn.2.1 hx']

namespace PromptHistorySource

variable {renderer : ChatEventPromptRenderer} {source : PromptHistorySource}
  {rows : List EventRecord}

/-- The visible rows up to `through`, without the current event. -/
def history (host : Host) (through : EventId) (current : Option EventId)
    (rows : List EventRecord) : List EventRecord :=
  rows.filter fun row => row.visible host && decide (row.id ≤ through ∧ some row.id ≠ current)

namespace Built

theorem history_ids (h : Built renderer rows source rows) (through : EventId)
    (current : Option EventId) : (history renderer.host through current rows).map (·.id) =
      without current (source.visibleIds.filter (· ≤ through)) := by
  rw [h.visibleIds]
  simp only [history, without, List.filter_map, List.filter_filter]
  congr 1
  refine List.filter_congr fun row _ => ?_
  rw [Bool.eq_iff_iff]
  simp only [Function.comp_apply, Bool.and_eq_true, decide_eq_true_eq]
  tauto

/-- Every shown event is collected under the first event of its fresh group, with its size. -/
theorem anchorOf_fresh (h : Built renderer rows source rows)
    (hasc : (rows.map (·.id)).Pairwise (· < ·)) {through : EventId} {current : Option EventId}
    {result : List (List EventId)} (hn : result.flatten.Nodup)
    (hres : Resolves current result
      (segments (continuesId renderer rows) (source.visibleIds.filter (· ≤ through)))
      (segments (continuesId renderer rows)
        (without current (source.visibleIds.filter (· ≤ through)))))
    {group : List EventId} (hg : group ∈ segments (continuesId renderer rows)
      (without current (source.visibleIds.filter (· ≤ through))))
    {id : EventId} (hid : id ∈ group) : ∃ number, source.groupOf.lookup id = some number ∧
      source.anchorOf (overridesOf result) through current id number =
        (group.head?.getD 0, (group.length : Int)) := by
  have hnodup : source.groups.flatten.Nodup := h.groups_flatten ▸ h.visible_nodup hasc
  have hshown : id ∈ source.visibleIds :=
    List.mem_of_mem_filter (List.mem_of_mem_filter (mem_of_mem_segments _ hg hid))
  rw [← h.groups_flatten] at hshown
  obtain ⟨own, hown, hmem⟩ := List.mem_flatten.1 hshown
  obtain ⟨number, hlt, hget⟩ := List.getElem_of_mem hown
  have hlookup : source.groupOf.lookup id = some number := by
    rw [h.groupOf, lookup_numbering hnodup]
    exact ⟨own, by rw [← hget, List.getElem?_eq_getElem], hmem⟩
  refine ⟨number, hlookup, ?_⟩
  obtain hin | ⟨hout, whole, hwhole, hhead, hwithout⟩ := hres group hg
  · unfold anchorOf
    rw [lookup_overridesOf hn hin hid]
  · have hidWhole : id ∈ whole := by
      rw [← hwithout] at hid
      exact List.mem_of_mem_filter hid
    rw [h.anchorOf_group hasc hwhole hidWhole hlookup (lookup_overridesOf_none hn (hout id hid)),
      hwithout, hhead]

end Built

/-! Collecting the supplied rows. -/

/-- The supplied members of each group, under its first event and with its size. -/
def collected (groups : List (List EventId)) (ids : List EventId) :
    Dict EventId (Int × List EventId) :=
  groups.filterMap fun group =>
    if group.filter (· ∈ ids) = [] then none
    else some (group.head?.getD 0, group.length, group.filter (· ∈ ids))

theorem collected_cons_none {group : List EventId} {ids : List EventId}
    (h : group.filter (· ∈ ids) = []) (groups : List (List EventId)) :
    collected (group :: groups) ids = collected groups ids := by
  unfold collected
  rw [List.filterMap_cons_none]
  rw [if_pos h]

theorem collected_cons_some {group : List EventId} {ids : List EventId}
    (h : group.filter (· ∈ ids) ≠ []) (groups : List (List EventId)) :
    collected (group :: groups) ids = (group.head?.getD 0, (group.length : Int),
      group.filter (· ∈ ids)) :: collected groups ids := by
  unfold collected
  rw [List.filterMap_cons_some]
  rw [if_neg h]

/-- How the members of one group are collected. -/
theorem foldl_select_group {overrides : Dict EventId (List EventId)} {through : EventId}
    {current : Option EventId} {group : List EventId}
    (hgroup : ∀ id ∈ group, ∃ number, source.groupOf.lookup id = some number ∧
      source.anchorOf overrides through current id number =
        (group.head?.getD 0, (group.length : Int)))
    {ids chosen : List EventId} (hids : ∀ id ∈ ids, id ∈ group)
    {selected : Dict EventId (Int × List EventId)}
    (hfresh : group.head?.getD 0 ∉ Dict.keys selected) :
    ids.foldl (source.select overrides through current)
        (selected ++ [(group.head?.getD 0, (group.length : Int), chosen)]) =
      selected ++ [(group.head?.getD 0, (group.length : Int), chosen ++ ids)] := by
  induction ids generalizing chosen with
  | nil => simp
  | cons id ids ih =>
    obtain ⟨number, hlookup, hanchor⟩ := hgroup id (hids id (by simp))
    have hkey : (selected ++ [(group.head?.getD 0, (group.length : Int), chosen)]).lookup
        (group.head?.getD 0) = some ((group.length : Int), chosen) := by
      rw [Dict.lookup_append_of_not_mem hfresh, Dict.lookup_cons, if_pos rfl]
    have hstep : source.select overrides through current
        (selected ++ [(group.head?.getD 0, (group.length : Int), chosen)]) id =
        selected ++ [(group.head?.getD 0, (group.length : Int), chosen ++ [id])] := by
      unfold select
      simp only [hlookup, hanchor, hkey, Option.getD_some]
      rw [Dict.set_append_of_not_mem hfresh]
      simp [Dict.set]
    rw [List.foldl_cons, hstep, ih fun i hi => hids i (by simp [hi])]
    simp

theorem foldl_select {overrides : Dict EventId (List EventId)} {through : EventId}
    {current : Option EventId} {groups : List (List EventId)}
    (hgroups : ∀ group ∈ groups, ∀ id ∈ group, ∃ number,
      source.groupOf.lookup id = some number ∧
      source.anchorOf overrides through current id number =
        (group.head?.getD 0, (group.length : Int)))
    (ids : List EventId) {selected : Dict EventId (Int × List EventId)}
    (hkeys : (Dict.keys selected ++ groups.map (·.head?.getD 0)).Nodup) :
    (groups.flatMap (·.filter (· ∈ ids))).foldl (source.select overrides through current) selected =
      selected ++ collected groups ids := by
  induction groups generalizing selected with
  | nil => simp [collected]
  | cons group groups ih =>
    have hrest : ∀ g ∈ groups, ∀ id ∈ g, ∃ number, source.groupOf.lookup id = some number ∧
        source.anchorOf overrides through current id number = (g.head?.getD 0, (g.length : Int)) :=
      fun g hg => hgroups g (by simp [hg])
    have hfresh : group.head?.getD 0 ∉ Dict.keys selected := by
      intro hm
      exact (List.nodup_append.1 hkeys).2.2 _ hm _ (by simp) rfl
    rw [List.flatMap_cons, List.foldl_append]
    cases hpart : group.filter (· ∈ ids) with
    | nil =>
      have hkeys' : (Dict.keys selected ++ groups.map (·.head?.getD 0)).Nodup :=
        List.Nodup.sublist (by simp) hkeys
      rw [List.foldl_nil, ih hrest hkeys', collected_cons_none hpart]
    | cons id part =>
      have hsub : ∀ i ∈ id :: part, i ∈ group := by
        intro i hi
        rw [← hpart] at hi
        exact List.mem_of_mem_filter hi
      obtain ⟨number, hlookup, hanchor⟩ := hgroups group (by simp) id (hsub id (by simp))
      have hstep : source.select overrides through current selected id =
          selected ++ [(group.head?.getD 0, (group.length : Int), [id])] := by
        unfold select
        simp only [hlookup, hanchor, Dict.lookup_eq_none hfresh, Option.getD_none,
          List.nil_append]
        exact Dict.set_of_not_mem hfresh _
      have hkeys' : (Dict.keys (selected ++ [(group.head?.getD 0, (group.length : Int),
          [id] ++ part)]) ++ groups.map (·.head?.getD 0)).Nodup := by
        simpa [Dict.keys] using hkeys
      rw [List.foldl_cons, hstep, foldl_select_group (hgroups group (by simp))
        (fun i hi => hsub i (by simp [hi])) hfresh, ih hrest hkeys',
        collected_cons_some (by simp [hpart]), hpart]
      simp

/-- The first members of the groups, in order. -/
theorem heads_sublist {groups : List (List EventId)} (h : ∀ g ∈ groups, g ≠ []) :
    (groups.map (·.head?.getD 0)).Sublist groups.flatten := by
  induction groups with
  | nil => simp
  | cons group groups ih =>
    obtain ⟨first, rest, rfl⟩ := List.exists_cons_of_ne_nil (h group (by simp))
    have hrest := ih fun g hg => h g (by simp [hg])
    simp only [List.map_cons, List.head?_cons, Option.getD_some, List.flatten_cons,
      List.cons_append]
    exact (hrest.trans (List.sublist_append_right _ _)).cons_cons _

theorem collected_keys (groups : List (List EventId)) (ids : List EventId) :
    (Dict.keys (collected groups ids)).Sublist (groups.map (·.head?.getD 0)) := by
  induction groups with
  | nil => simp [collected, Dict.keys]
  | cons group groups ih =>
    by_cases hpart : group.filter (· ∈ ids) = []
    · rw [collected_cons_none hpart]
      exact ih.cons _
    · rw [collected_cons_some hpart]
      exact ih.cons_cons _

/-! Rendering what was collected. -/

/-- What is shown of a group: one fragment when all its rows are supplied, else the supplied
rows one by one. -/
def shownGroup (renderer : ChatEventPromptRenderer) (ids : List EventId)
    (group : List EventRecord) : List EventFragment :=
  if ∀ row ∈ group, row.id ∈ ids then (renderer.batch group).map (·.2)
  else (group.filter (·.id ∈ ids)).map renderer.single

theorem foldlM_single {part : List EventRecord}
    (h : ∀ row ∈ part, row.Readable renderer.host ∧ row.visible renderer.host = true)
    (out : List EventFragment × List EventFragment) :
    part.foldlM (fun out row => do
      let message ← renderer.referenceMessage row none ""
      if strip message.content = "" then return out
      return (out.1 ++ [([row.id], message)], out.2 ++ [([row.id], message)])) out =
    (.ok (out.1 ++ part.map renderer.single, out.2 ++ part.map renderer.single) :
      Except Err (List EventFragment × List EventFragment)) := by
  induction part generalizing out with
  | nil => simp [pure, Except.pure]
  | cons row part ih =>
    obtain ⟨hread, hv⟩ := h row (by simp)
    obtain ⟨hm, hs, -⟩ := renderer.messageOf_visible hread hv
    rw [List.foldlM_cons, hm]
    simp only [bind, Except.bind, hs, if_false, pure, Except.pure] at ih ⊢
    rw [ih fun r hr => h r (by simp [hr])]
    simp [ChatEventPromptRenderer.single]

theorem filterMap_lookup {fresh : Dict EventId EventRecord} {ids : List EventId}
    {group : List EventRecord}
    (h : ∀ row ∈ group, row.id ∈ ids → fresh.lookup row.id = some row) :
    ((group.map (·.id)).filter (· ∈ ids)).filterMap (fun id => fresh.lookup id) =
      group.filter (·.id ∈ ids) := by
  induction group with
  | nil => rfl
  | cons row group ih =>
    have hrest := ih fun r hr => h r (by simp [hr])
    by_cases hid : row.id ∈ ids
    · have hlookup := h row (by simp) hid
      simp only [List.map_cons, List.filter_cons, hid, decide_true, if_true]
      rw [List.filterMap_cons, hlookup]
      simp only [hrest]
    · simp only [List.map_cons, List.filter_cons, hid, decide_false, Bool.false_eq_true, if_false]
      exact hrest

/-- One collected group is shown as a group of the fresh grouping is. -/
theorem emit_group {fresh : Dict EventId EventRecord} {ids : List EventId}
    {group : List EventRecord}
    (hread : ∀ row ∈ group, row.Readable renderer.host ∧ row.visible renderer.host = true)
    (hsegment : segments renderer.continuesRow group = [group])
    (hlookup : ∀ row ∈ group, row.id ∈ ids → fresh.lookup row.id = some row)
    (out : List EventFragment × List EventFragment) (anchor : EventId) :
    emit renderer fresh out (anchor, ((group.map (·.id)).length : Int),
      (group.map (·.id)).filter (· ∈ ids)) =
      .ok (out.1 ++ shownGroup renderer ids group,
        out.2 ++ (group.filter (·.id ∈ ids)).map renderer.single) := by
  unfold emit
  simp only [filterMap_lookup hlookup, List.length_map, Nat.cast_inj]
  by_cases hall : ∀ row ∈ group, row.id ∈ ids
  · have hself : group.filter (·.id ∈ ids) = group := by
      rw [List.filter_eq_self]
      intro row hrow
      simpa using hall row hrow
    have hvisible : group.filter (·.visible renderer.host) = group := by
      rw [List.filter_eq_self]
      exact fun row hrow => (hread row hrow).2
    have hviews := renderer.mainAgentHistoryViews_eq fun row hrow => (hread row hrow).1
    rw [hvisible, hsegment] at hviews
    simp only [hself, if_true, hviews, bind, Except.bind, pure, Except.pure, shownGroup]
    rw [if_pos hall]
    simp [Function.comp_def]
  · have hlen : ¬ (group.filter (·.id ∈ ids)).length = group.length := by
      intro hlen
      apply hall
      intro row hrow
      simpa using List.length_filter_eq_length_iff.1 hlen row hrow
    rw [if_neg hlen]
    simp only [bind, Except.bind, pure, Except.pure, shownGroup]
    rw [if_neg hall]
    refine foldlM_single (fun row hrow => hread row (List.mem_of_mem_filter hrow)) out

theorem foldlM_emit {fresh : Dict EventId EventRecord} {ids : List EventId}
    {groups : List (List EventRecord)} (hne : ∀ group ∈ groups, group ≠ [])
    (hread : ∀ group ∈ groups, ∀ row ∈ group,
      row.Readable renderer.host ∧ row.visible renderer.host = true)
    (hsegment : ∀ group ∈ groups, segments renderer.continuesRow group = [group])
    (hlookup : ∀ group ∈ groups, ∀ row ∈ group, row.id ∈ ids → fresh.lookup row.id = some row)
    (out : List EventFragment × List EventFragment) :
    (collected (groups.map (List.map (·.id))) ids).foldlM (emit renderer fresh) out =
      .ok (out.1 ++ groups.flatMap (shownGroup renderer ids),
        out.2 ++ groups.flatMap fun group =>
          (group.filter (·.id ∈ ids)).map renderer.single) := by
  induction groups generalizing out with
  | nil => simp [collected, pure, Except.pure]
  | cons group groups ih =>
    have hrest := ih (fun g hg => hne g (by simp [hg])) (fun g hg => hread g (by simp [hg]))
      (fun g hg => hsegment g (by simp [hg])) (fun g hg => hlookup g (by simp [hg]))
    rw [List.map_cons]
    by_cases hpart : (group.map (·.id)).filter (· ∈ ids) = []
    · have hnone : ∀ row ∈ group, row.id ∉ ids := by
        simpa [List.filter_eq_nil_iff] using hpart
      obtain ⟨row, hrow⟩ := List.exists_mem_of_ne_nil _ (hne group (by simp))
      have hnot : ¬ ∀ row ∈ group, row.id ∈ ids := fun hall => hnone row hrow (hall row hrow)
      have hempty : group.filter (·.id ∈ ids) = [] := by
        rw [List.filter_eq_nil_iff]
        intro r hr
        simpa using hnone r hr
      rw [collected_cons_none hpart, hrest]
      simp [shownGroup, hnot, hempty]
    · rw [collected_cons_some hpart, List.foldlM_cons,
        emit_group (hread group (by simp)) (hsegment group (by simp)) (hlookup group (by simp))]
      simp only [bind, Except.bind]
      rw [hrest]
      simp

theorem history_visible {host : Host} {through : EventId} {current : Option EventId}
    {row : EventRecord} (h : row ∈ history host through current rows) :
    row ∈ rows ∧ row.visible host = true ∧ row.id ≤ through ∧ some row.id ≠ current := by
  simpa [history, and_assoc] using h

section

variable {through : EventId} {current : Option EventId} {supplied : List EventRecord}

/-- The index holds the fresh groups of the history. -/
theorem segments_history (h : Built renderer rows source rows)
    (hasc : (rows.map (·.id)).Pairwise (· < ·)) :
    segments (continuesId renderer rows)
        (without current (source.visibleIds.filter (· ≤ through))) =
      (segments renderer.continuesRow (history renderer.host through current rows)).map
        (List.map (·.id)) := by
  rw [← h.history_ids, segments_rows (hasc.imp ne_of_lt)]
  exact fun row hrow => (history_visible hrow).1

theorem supplied_nodup (hasc : (rows.map (·.id)).Pairwise (· < ·))
    (hs : supplied.Sublist (history renderer.host through current rows)) :
    (supplied.map (·.id)).Nodup :=
  List.Nodup.sublist ((hs.trans List.filter_sublist).map _) (hasc.imp ne_of_lt)

theorem lookup_fresh (hasc : (rows.map (·.id)).Pairwise (· < ·))
    (hs : supplied.Sublist (history renderer.host through current rows)) {row : EventRecord}
    (hrow : row ∈ rows) (hid : row.id ∈ supplied.map (·.id)) :
    (supplied.map fun row => (row.id, row)).lookup row.id = some row := by
  obtain ⟨other, hother, heq⟩ := List.mem_map.1 hid
  have hsame : other = row :=
    List.inj_on_of_nodup_map (hasc.imp ne_of_lt) (history_visible (hs.subset hother)).1 hrow heq
  refine Dict.lookup_of_mem ?_ (List.mem_map.2 ⟨other, hother, by rw [hsame]⟩)
  simpa [Dict.keys, Function.comp_def] using supplied_nodup hasc hs

/-- The rendering of any part of the history from the index. -/
theorem render_eq (h : Built renderer rows source rows)
    (hasc : (rows.map (·.id)).Pairwise (· < ·))
    (hread : ∀ row ∈ rows, row.Readable renderer.host)
    (hs : supplied.Sublist (history renderer.host through current rows)) :
    source.render supplied renderer.references through current = .ok
      ((segments renderer.continuesRow (history renderer.host through current rows)).flatMap
        (shownGroup renderer (supplied.map (·.id))), supplied.map renderer.single) := by
  have hkeys : (Dict.keys (supplied.map fun row => (row.id, row))).Nodup := by
    simpa [Dict.keys, Function.comp_def] using supplied_nodup hasc hs
  have hfresh : Dict.ofList ((supplied.filter fun row => some row.id ≠ current).map fun row =>
      (row.id, row)) = supplied.map fun row => (row.id, row) := by
    have hself : (supplied.filter fun row => some row.id ≠ current) = supplied := by
      rw [List.filter_eq_self]
      intro row hrow
      simpa using (history_visible (hs.subset hrow)).2.2.2
    rw [hself, Dict.ofList_of_nodup hkeys]
  have hids : Dict.keys (supplied.map fun row => (row.id, row)) = supplied.map (·.id) := by
    simp [Dict.keys, Function.comp_def]
  obtain ⟨result, hover, hn, hres⟩ := excludedGroups_spec h hasc current through
  set groups := segments renderer.continuesRow (history renderer.host through current rows)
    with hgroups
  have hT : segments (continuesId renderer rows)
      (without current (source.visibleIds.filter (· ≤ through))) = groups.map (List.map (·.id)) :=
    segments_history h hasc
  have hascT : (without current (source.visibleIds.filter (· ≤ through))).Pairwise (· < ·) :=
    ((h.visible_ascending hasc).filter _).filter _
  have hnodup : (without current (source.visibleIds.filter (· ≤ through))).Nodup :=
    hascT.imp ne_of_lt
  have hhead : ((groups.map (List.map (·.id))).map (·.head?.getD 0)).Pairwise (· < ·) := by
    rw [← segments_flatten (continuesId renderer rows)
      (without current (source.visibleIds.filter (· ≤ through)))] at hascT
    rw [← hT]
    exact hascT.sublist (heads_sublist fun g hg => segments_ne_nil _ hg)
  have hmem : ∀ group ∈ groups, ∀ row ∈ group,
      row ∈ history renderer.host through current rows := by
    intro group hg row hrow
    rw [← segments_flatten renderer.continuesRow (history renderer.host through current rows)]
    exact List.mem_flatten_of_mem hg hrow
  have hsup : supplied.map (·.id) =
      (groups.map (List.map (·.id))).flatMap (·.filter (· ∈ supplied.map (·.id))) := by
    have hsub : (supplied.map (·.id)).Sublist
        (without current (source.visibleIds.filter (· ≤ through))) := by
      rw [← h.history_ids]
      exact hs.map _
    have hkey : ((without current (source.visibleIds.filter (· ≤ through))).map id).Nodup := by
      simpa using hnodup
    have hcut := eq_filter_of_sublist id hsub hkey
    conv_lhs => rw [hcut]
    rw [← hT, List.flatMap_def, ← List.filter_flatten, segments_flatten]
    simp
  have hselect : (supplied.map (·.id)).foldl
      (source.select (overridesOf result) through current) [] =
      collected (groups.map (List.map (·.id))) (supplied.map (·.id)) := by
    have hanchors : ∀ group ∈ groups.map (List.map (·.id)), ∀ id ∈ group, ∃ number,
        source.groupOf.lookup id = some number ∧
        source.anchorOf (overridesOf result) through current id number =
          (group.head?.getD 0, (group.length : Int)) :=
      fun group hg id hid => h.anchorOf_fresh hasc hn hres (hT ▸ hg) hid
    have hheads : (Dict.keys ([] : Dict EventId (Int × List EventId)) ++
        (groups.map (List.map (·.id))).map (·.head?.getD 0)).Nodup := hhead.imp ne_of_lt
    conv_lhs => rw [hsup]
    rw [foldl_select hanchors _ hheads, List.nil_append]
  have hsorted : (collected (groups.map (List.map (·.id))) (supplied.map (·.id))).mergeSort
      (fun a b => decide (a.1 ≤ b.1)) =
      collected (groups.map (List.map (·.id))) (supplied.map (·.id)) := by
    refine List.mergeSort_of_pairwise ?_
    have hlt := hhead.sublist (collected_keys _ (supplied.map (·.id)))
    exact (List.pairwise_map.1 hlt).imp fun hab => by simpa using hab.le
  have hlookup : ∀ group ∈ groups, ∀ row ∈ group, row.id ∈ supplied.map (·.id) →
      (supplied.map fun row => (row.id, row)).lookup row.id = some row :=
    fun group hg row hrow hid => lookup_fresh hasc hs (history_visible (hmem group hg row hrow)).1 hid
  have hemit := foldlM_emit (fun group hg => segments_ne_nil _ hg)
    (fun group hg row hrow => ⟨hread row (history_visible (hmem group hg row hrow)).1,
      (history_visible (hmem group hg row hrow)).2.1⟩)
    (fun group hg => segments_mem _ hg) hlookup ([], [])
  have hsingles : groups.flatMap (fun group => (group.filter (·.id ∈ supplied.map (·.id))).map
      renderer.single) = supplied.map renderer.single := by
    have hkey : ((history renderer.host through current rows).map (·.id)).Nodup := by
      rw [h.history_ids]
      exact hnodup
    have hcut := eq_filter_of_sublist (·.id) hs hkey
    conv_rhs => rw [hcut]
    rw [← segments_flatten renderer.continuesRow (history renderer.host through current rows),
      ← hgroups, List.filter_flatten, List.map_flatten, List.flatMap_def, List.map_map]
    rfl
  unfold render
  rw [h.host, h.timezone]
  simp only [hfresh, hover, hids, hselect, hsorted, bind, Except.bind]
  rw [hemit, hsingles]
  rfl

/-- The fragment of a group of rows. -/
theorem batch_cons (renderer : ChatEventPromptRenderer) (first : EventRecord) (rest : List EventRecord) :
    ∃ message, renderer.batch (first :: rest) =
      [(first.id, (first :: rest).map (·.id), message)] := by
  exact ⟨((renderer.openGroup (first :: rest)).map (·.fragment.2)).getD ⟨.user, ""⟩, rfl⟩

/-- The events of what is shown of a group are its supplied ones. -/
theorem shownGroup_ids {group : List EventRecord} (hne : group ≠ []) (ids : List EventId) :
    (shownGroup renderer ids group).flatMap (·.1) = (group.map (·.id)).filter (· ∈ ids) := by
  unfold shownGroup
  by_cases hall : ∀ row ∈ group, row.id ∈ ids
  · obtain ⟨first, rest, rfl⟩ := List.exists_cons_of_ne_nil hne
    obtain ⟨message, hb⟩ := batch_cons renderer first rest
    have hself : ((first :: rest).map (·.id)).filter (· ∈ ids) = (first :: rest).map (·.id) := by
      rw [List.filter_eq_self]
      intro id hid
      obtain ⟨row, hrow, rfl⟩ := List.mem_map.1 hid
      simpa using hall row hrow
    rw [if_pos hall, hb, hself]
    simp
  · rw [if_neg hall, List.filter_map]
    simp only [ChatEventPromptRenderer.single, List.flatMap_map]
    exact List.map_eq_flatMap.symm

/-- The single fragments of the supplied rows. -/
theorem filter_singles (renderer : ChatEventPromptRenderer) (all : List EventRecord) (p : EventId → Bool) :
    (all.map renderer.single).filter (fun f => decide (∀ id ∈ f.1, p id = true)) =
      (all.filter fun row => p row.id).map renderer.single := by
  rw [List.filter_map]
  congr 1
  refine List.filter_congr fun row _ => ?_
  simp [ChatEventPromptRenderer.single]

/-- What is shown of a group, from its own fragment and the single fragments of all rows. -/
theorem shownGroup_eq {all group : List EventRecord} (hn : (all.map (·.id)).Nodup)
    (hsub : group.Sublist all) (hne : group ≠ []) (ids : List EventId) :
    shownGroup renderer ids group = ((renderer.batch group).map (·.2)).flatMap fun f =>
      if ∀ id ∈ f.1, id ∈ ids then [f]
      else (all.map renderer.single).filter fun s => ∀ id ∈ s.1, id ∈ f.1 ∧ id ∈ ids := by
  obtain ⟨first, rest, rfl⟩ := List.exists_cons_of_ne_nil hne
  obtain ⟨message, hb⟩ := batch_cons renderer first rest
  unfold shownGroup
  rw [hb]
  simp only [List.map_singleton, List.flatMap_singleton]
  have hiff : (∀ id ∈ (first :: rest).map (·.id), id ∈ ids) ↔
      ∀ row ∈ first :: rest, row.id ∈ ids := by simp
  by_cases hall : ∀ row ∈ first :: rest, row.id ∈ ids
  · rw [if_pos hall, if_pos (hiff.2 hall)]
  · rw [if_neg hall, if_neg fun h => hall (hiff.1 h)]
    have hcut := eq_filter_of_sublist (·.id) hsub hn
    have hsingles := filter_singles renderer all
      fun id => decide (id ∈ (first :: rest).map (·.id) ∧ id ∈ ids)
    simp only [decide_eq_true_eq] at hsingles
    rw [hsingles]
    conv_lhs => rw [hcut]
    rw [List.filter_filter]
    congr 1
    refine List.filter_congr fun row _ => ?_
    rw [Bool.decide_and, Bool.and_comm]

/-- The events of a fragment of fresh groups are events of one of them. -/
theorem batch_ids {groups : List (List EventRecord)} (hne : ∀ group ∈ groups, group ≠ [])
    {f : EventFragment} (hf : f ∈ (groups.flatMap renderer.batch).map (·.2)) {id : EventId}
    (hid : id ∈ f.1) : ∃ group ∈ groups, ∃ row ∈ group, row.id = id := by
  obtain ⟨entry, hentry, rfl⟩ := List.mem_map.1 hf
  obtain ⟨group, hg, hmem⟩ := List.mem_flatMap.1 hentry
  obtain ⟨first, rest, rfl⟩ := List.exists_cons_of_ne_nil (hne group hg)
  obtain ⟨message, hb⟩ := batch_cons renderer first rest
  rw [hb, List.mem_singleton] at hmem
  rw [hmem] at hid
  obtain ⟨row, hrow, hid⟩ := List.mem_map.1 hid
  exact ⟨_, hg, row, hrow, hid⟩

/-- What is shown of some groups of all rows, from the fragments of a rendering of all. -/
def regroup (grouped individual : List EventFragment) (ids : List EventId) : List EventFragment :=
  grouped.flatMap fun group =>
    if ∀ id ∈ group.1, id ∈ ids then [group]
    else individual.filter fun f => ∀ id ∈ f.1, id ∈ group.1 ∧ id ∈ ids

theorem flatMap_shownGroup {all : List EventRecord} {groups : List (List EventRecord)}
    (hn : (all.map (·.id)).Nodup) (hsub : ∀ group ∈ groups, group.Sublist all)
    (hne : ∀ group ∈ groups, group ≠ []) (ids : List EventId) :
    groups.flatMap (shownGroup renderer ids) =
      regroup ((groups.flatMap renderer.batch).map (·.2)) (all.map renderer.single) ids := by
  unfold regroup
  rw [List.map_flatMap, List.flatMap_assoc]
  exact List.flatMap_congr fun group hg => shownGroup_eq hn (hsub group hg) (hne group hg) ids

theorem regroup_all {grouped individual : List EventFragment} {ids : List EventId}
    (h : ∀ f ∈ grouped, ∀ id ∈ f.1, id ∈ ids) : regroup grouped individual ids = grouped := by
  have hself : regroup grouped individual ids = grouped.flatMap fun f => [f] :=
    List.flatMap_congr fun f hf => if_pos (h f hf)
  rw [hself, ← List.map_eq_flatMap, List.map_id']

/-- The supplied events are the events of what is shown, each once and in order. -/
theorem shown_ids (renderer : ChatEventPromptRenderer) {all : List EventRecord} {groups : List (List EventRecord)}
    (hn : (all.map (·.id)).Nodup) (hflat : groups.flatten = all)
    (hne : ∀ group ∈ groups, group ≠ []) (hs : supplied.Sublist all) :
    ((groups.flatMap (shownGroup renderer (supplied.map (·.id)))).map (·.1)).flatten =
      supplied.map (·.id) := by
  have hcut := eq_filter_of_sublist id (hs.map (·.id)) (by simpa using hn)
  rw [← List.flatMap_def, List.flatMap_assoc,
    List.flatMap_congr fun group hg => shownGroup_ids (hne group hg) (supplied.map (·.id))]
  conv_rhs => rw [hcut]
  rw [← hflat, List.map_flatten, List.filter_flatten, List.flatMap_def, List.map_map]
  simp [Function.comp_def]

/-- The rendering of a part of the history, from the fragments of the whole. -/
theorem render_part (h : Built renderer rows source rows)
    (hasc : (rows.map (·.id)).Pairwise (· < ·))
    (hread : ∀ row ∈ rows, row.Readable renderer.host) {grouped individual}
    (hviews : renderer.mainAgentHistoryViews (history renderer.host through current rows) =
      .ok (grouped, individual))
    (hs : supplied.Sublist (history renderer.host through current rows)) :
    ∃ shown, source.render supplied renderer.references through current = .ok (shown,
        (individual.map (·.2)).filter fun f => ∀ id ∈ f.1, id ∈ supplied.map (·.id)) ∧
      shown = regroup (grouped.map (·.2)) (individual.map (·.2)) (supplied.map (·.id)) ∧
      (∀ f ∈ shown, ∀ id ∈ f.1, id ∈ supplied.map (·.id)) ∧
      ∀ row ∈ supplied, shown.countP (fun f => row.id ∈ f.1) = 1 := by
  have hkey : ((history renderer.host through current rows).map (·.id)).Nodup :=
    List.Nodup.sublist (List.filter_sublist.map _) (hasc.imp ne_of_lt)
  have hreadAll : ∀ row ∈ history renderer.host through current rows,
      row.Readable renderer.host := fun row hrow => hread row (history_visible hrow).1
  have hvisible : (history renderer.host through current rows).filter
      (·.visible renderer.host) = history renderer.host through current rows := by
    rw [List.filter_eq_self]
    exact fun row hrow => (history_visible hrow).2.1
  rw [renderer.mainAgentHistoryViews_eq hreadAll, hvisible, Except.ok.injEq,
    Prod.mk.injEq] at hviews
  obtain ⟨rfl, rfl⟩ := hviews
  have hrender := render_eq h hasc hread hs
  set all := history renderer.host through current rows with hall
  set groups := segments renderer.continuesRow all with hgroups
  have hflat : groups.flatten = all := segments_flatten _ _
  have hgne : ∀ group ∈ groups, group ≠ [] := fun group hg => segments_ne_nil _ hg
  have hsub : ∀ group ∈ groups, group.Sublist all := by
    intro group hg
    rw [← hflat]
    exact List.sublist_flatten_of_mem hg
  have hsingle : (all.map fun row => (row.id, renderer.single row)).map (·.2) =
      all.map renderer.single := by simp [Function.comp_def]
  have hcovers := shown_ids renderer hkey hflat hgne hs
  have hnodup : (supplied.map (·.id)).Nodup := List.Nodup.sublist (hs.map _) hkey
  refine ⟨groups.flatMap (shownGroup renderer (supplied.map (·.id))), ?_, ?_, ?_, ?_⟩
  · have hcut := eq_filter_of_sublist (·.id) hs hkey
    have hsingles := filter_singles renderer all fun id => decide (id ∈ supplied.map (·.id))
    simp only [decide_eq_true_eq] at hsingles
    rw [hrender, hsingle, hsingles, ← hcut]
  · rw [hsingle]
    exact flatMap_shownGroup hkey hsub hgne _
  · intro f hf id hid
    rw [← hcovers]
    exact List.mem_flatten.2 ⟨f.1, List.mem_map_of_mem hf, hid⟩
  · intro row hrow
    have hin : row.id ∈ ((groups.flatMap (shownGroup renderer (supplied.map (·.id)))).map
        (·.1)).flatten := by
      rw [hcovers]
      exact List.mem_map_of_mem hrow
    rw [← hcovers] at hnodup
    have hone := countP_mem_flatten hnodup hin
    rwa [List.countP_map] at hone

/-- The events of the views of the history are events of the history. -/
theorem views_ids (hread : ∀ row ∈ rows, row.Readable renderer.host) {grouped individual}
    (hviews : renderer.mainAgentHistoryViews (history renderer.host through current rows) =
      .ok (grouped, individual)) :
    (∀ f ∈ grouped.map (·.2), ∀ id ∈ f.1,
      id ∈ (history renderer.host through current rows).map (·.id)) ∧
    ∀ f ∈ individual.map (·.2), ∀ id ∈ f.1,
      id ∈ (history renderer.host through current rows).map (·.id) := by
  have hreadAll : ∀ row ∈ history renderer.host through current rows,
      row.Readable renderer.host := fun row hrow => hread row (history_visible hrow).1
  rw [renderer.mainAgentHistoryViews_eq hreadAll, Except.ok.injEq, Prod.mk.injEq] at hviews
  obtain ⟨rfl, rfl⟩ := hviews
  constructor
  · intro f hf id hid
    obtain ⟨group, hg, row, hrow, rfl⟩ :=
      batch_ids (fun group hg => segments_ne_nil _ hg) hf hid
    refine List.mem_map_of_mem (List.mem_of_mem_filter (p := (·.visible renderer.host)) ?_)
    rw [← segments_flatten renderer.continuesRow
      ((history renderer.host through current rows).filter (·.visible renderer.host))]
    exact List.mem_flatten_of_mem hg hrow
  · intro f hf id hid
    obtain ⟨entry, hentry, rfl⟩ := List.mem_map.1 hf
    obtain ⟨row, hrow, rfl⟩ := List.mem_map.1 hentry
    rw [List.mem_singleton.1 hid]
    exact List.mem_map_of_mem (List.mem_of_mem_filter hrow)

end

/-- However the events were split into batches, rendering the whole history from the index gives
the groups and the single messages of a rendering from scratch. Of a part of the history it
shows the groups whose rows are all there, and the other rows alone, each of them once. -/
theorem render_incremental (host : Host) (timezone : String) (published : Option (List EventId))
    (afterEventId : EventId) (batches : List (List EventRecord × EventId))
    (source : PromptHistorySource)
    (hext : (new host timezone published afterEventId).extendAll batches = .ok source)
    (hasc : ((batches.flatMap (·.1)).map (·.id)).Pairwise (· < ·))
    (hkind : ∀ row ∈ batches.flatMap (·.1), row.eventKind = .message)
    (references : EventPromptReferences) (through : EventId) (current : Option EventId) :
    ∃ grouped individual,
      (ChatEventPromptRenderer.mk host timezone references).mainAgentHistoryViews
        (history host through current (batches.flatMap (·.1))) = .ok (grouped, individual) ∧
      source.render (history host through current (batches.flatMap (·.1))) references through
        current = .ok (grouped.map (·.2), individual.map (·.2)) ∧
      ∀ supplied, supplied.Sublist (history host through current (batches.flatMap (·.1))) →
        ∃ shown, source.render supplied references through current = .ok (shown,
            (individual.map (·.2)).filter fun f => ∀ id ∈ f.1, id ∈ supplied.map (·.id)) ∧
          shown = regroup (grouped.map (·.2)) (individual.map (·.2)) (supplied.map (·.id)) ∧
          (∀ group ∈ grouped.map (·.2),
            group ∈ shown ↔ ∀ id ∈ group.1, id ∈ supplied.map (·.id)) ∧
          ∀ row ∈ supplied, shown.countP (fun f => row.id ∈ f.1) = 1 := by
  have hstart : Built ⟨host, timezone, references⟩ (batches.flatMap (·.1))
      (new host timezone published afterEventId) [] :=
    .new published afterEventId
  obtain ⟨h, hcontent⟩ := hstart.extendAll (hasc.imp ne_of_lt) rfl hext
  have hread : ∀ row ∈ batches.flatMap (·.1), row.Readable host :=
    fun row hrow => ⟨hkind row hrow, hcontent row hrow⟩
  have hreadAll : ∀ row ∈ history host through current (batches.flatMap (·.1)),
      row.Readable host := fun row hrow => hread row (history_visible hrow).1
  have hviews := (ChatEventPromptRenderer.mk host timezone references).mainAgentHistoryViews_eq
    hreadAll
  obtain ⟨hgrouped, hindividual⟩ := views_ids hread hviews
  refine ⟨_, _, hviews, ?_, ?_⟩
  · obtain ⟨shown, hrender, hshown, -, -⟩ :=
      render_part h hasc hread hviews (List.Sublist.refl _)
    have hall := List.filter_eq_self.2 fun f hf => decide_eq_true (hindividual f hf)
    rw [hrender, hshown, regroup_all hgrouped]
    exact congrArg (fun alone => Except.ok (_, alone)) hall
  · intro supplied hs
    obtain ⟨shown, hrender, hshown, hids, hone⟩ := render_part h hasc hread hviews hs
    refine ⟨shown, hrender, hshown, ?_, hone⟩
    intro group hg
    refine ⟨fun hmem => hids group hmem, fun hin => ?_⟩
    rw [hshown]
    exact List.mem_flatMap.2 ⟨group, hg, by rw [if_pos hin]; simp⟩

/-- A message of one speaker. -/
def spoken (id : EventId) (name : String) (occurredAt : Time) (content : String) : EventRecord :=
  ⟨id, name, .inbound, content, "", [], occurredAt, "qq", "", name, "", none, none, "user_message",
    .message, none, none, none, none, none, none, none, none, none, none, none⟩

def asciiHost : Host :=
  ⟨fun c => decide (c.toNat < 32), Char.isAlphanum, fun _ => "", fun _ _ => 0, fun _ _ => ""⟩

/-- Two batches; without the third event its neighbours form one group. -/
theorem render_incremental_batches : ∃ source,
    (new asciiHost "UTC" none 0).extendAll [([spoken 1 "a" 0 "x", spoken 2 "a" 10 "y"], 2),
      ([spoken 3 "b" 20 "z", spoken 4 "a" 30 "w", spoken 5 "a" 400 "v"], 5)] = .ok source ∧
    ∃ grouped individual, source.render (history asciiHost 5 (some 3) [spoken 1 "a" 0 "x",
        spoken 2 "a" 10 "y", spoken 3 "b" 20 "z", spoken 4 "a" 30 "w", spoken 5 "a" 400 "v"])
      (EventPromptIndex.empty.capture 5 []) 5 (some 3) = .ok (grouped, individual) := by
  have hok : ((new asciiHost "UTC" none 0).extendAll [([spoken 1 "a" 0 "x", spoken 2 "a" 10 "y"], 2),
      ([spoken 3 "b" 20 "z", spoken 4 "a" 30 "w", spoken 5 "a" 400 "v"], 5)]).toBool = true := by
    decide +kernel
  cases hext : (new asciiHost "UTC" none 0).extendAll [([spoken 1 "a" 0 "x",
      spoken 2 "a" 10 "y"], 2), ([spoken 3 "b" 20 "z", spoken 4 "a" 30 "w",
      spoken 5 "a" 400 "v"], 5)] with
  | error e => simp [hext, Except.toBool] at hok
  | ok source =>
    obtain ⟨grouped, individual, -, hrender, -⟩ := render_incremental asciiHost "UTC" none 0 _
      source hext (by decide) (by simp [spoken]) (EventPromptIndex.empty.capture 5 []) 5 (some 3)
    exact ⟨source, rfl, _, _, hrender⟩

end PromptHistorySource

end Yuki

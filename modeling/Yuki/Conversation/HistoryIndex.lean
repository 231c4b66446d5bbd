import Yuki.Conversation.HistoryViews

/-! What `extend` leaves in the source, however the rows were split: the raw
rows, their positions, and the greedy grouping of the visible ones. -/

namespace Yuki

namespace PromptHistorySource

variable (renderer : ChatEventPromptRenderer) (all : List EventRecord)

/-- The grouping condition on the ids of known rows. -/
def continuesId (first last id : EventId) : Bool :=
  match all.find? (·.id = first), all.find? (·.id = last), all.find? (·.id = id) with
  | some first, some last, some row => renderer.continuesRow first last row
  | _, _, _ => false

/-- Every member with the number of its group. -/
def numbering (groups : List (List EventId)) : Dict EventId Nat :=
  groups.zipIdx.flatMap fun p => p.1.map fun id => (id, p.2)

/-- The index of the first rows of a sequence. -/
structure Built (source : PromptHistorySource) (rows : List EventRecord) : Prop where
  host : source.host = renderer.host
  timezone : source.timezone = renderer.timezone
  metadata : source.metadata = rows.map fun row => renderer.rawOf row (row.visible renderer.host)
  positions : source.positions = rows.zipIdx.map fun p => (p.1.id, p.2)
  visibleIds : source.visibleIds = (rows.filter (·.visible renderer.host)).map (·.id)
  groups : source.groups = segments (continuesId renderer all) source.visibleIds
  groupOf : source.groupOf = numbering source.groups

variable {renderer all} {source : PromptHistorySource} {rows : List EventRecord}

theorem numbering_keys (groups : List (List EventId)) :
    Dict.keys (numbering groups) = groups.flatten := by
  have hgen : ∀ n, Dict.keys ((groups.zipIdx n).flatMap fun p => p.1.map fun id => (id, p.2)) =
      groups.flatten := by
    induction groups with
    | nil => intro n; rfl
    | cons g groups ih =>
      intro n
      have hh := ih (n + 1)
      simp only [Dict.keys, List.zipIdx_cons, List.flatMap_cons, List.map_append, List.map_map,
        List.flatten_cons] at hh ⊢
      rw [hh]
      simp [Function.comp_def]
  exact hgen 0

theorem mem_numbering {groups : List (List EventId)} {id : EventId} {n : Nat} :
    (id, n) ∈ numbering groups ↔ ∃ g, groups[n]? = some g ∧ id ∈ g := by
  simp only [numbering, List.mem_flatMap, List.mem_map, Prod.mk.injEq, Prod.exists,
    List.mem_zipIdx_iff_getElem?]
  constructor
  · rintro ⟨g, m, hg, i, hi, rfl, rfl⟩
    exact ⟨g, hg, hi⟩
  · rintro ⟨g, hg, hi⟩
    exact ⟨g, n, hg, id, hi, rfl, rfl⟩

theorem lookup_numbering {groups : List (List EventId)} (hn : groups.flatten.Nodup)
    {id : EventId} {n : Nat} :
    (numbering groups).lookup id = some n ↔ ∃ g, groups[n]? = some g ∧ id ∈ g := by
  have hkeys : (Dict.keys (numbering groups)).Nodup := by rwa [numbering_keys]
  rw [← mem_numbering]
  constructor
  · exact fun h => Dict.mem_of_lookup h
  · exact fun h => Dict.lookup_of_mem hkeys h

theorem numbering_snoc (groups : List (List EventId)) (g : List EventId) :
    numbering (groups ++ [g]) = numbering groups ++ g.map fun id => (id, groups.length) := by
  simp [numbering, List.zipIdx_append]

/-- A new member takes the number of the last group. -/
theorem numbering_push (cont : EventId → EventId → EventId → Bool) {groups : List (List EventId)}
    {id : EventId} (h : id ∉ groups.flatten) :
    Dict.set (numbering groups) id ((pushItem cont groups id).length - 1) =
      numbering (pushItem cont groups id) := by
  have hfresh : id ∉ Dict.keys (numbering groups) := by rwa [numbering_keys]
  rw [Dict.set_of_not_mem hfresh]
  obtain rfl | ⟨gs, g, rfl⟩ := List.eq_nil_or_concat groups
  · rfl
  · rw [List.concat_eq_append, pushItem_snoc]
    split
    · simp [numbering_snoc]
    · simp [numbering_snoc, -List.append_assoc]

/-! Rows by their ids. -/

theorem positions_keys (rows : List EventRecord) :
    Dict.keys (rows.zipIdx.map fun p => (p.1.id, p.2)) = rows.map (·.id) := by
  have hfst : rows.zipIdx.map (·.1) = rows := List.zipIdx_map_fst 0 rows
  calc Dict.keys (rows.zipIdx.map fun p => (p.1.id, p.2))
      = rows.zipIdx.map fun p => p.1.id := by simp [Dict.keys, Function.comp_def]
    _ = (rows.zipIdx.map (·.1)).map (·.id) := by
      rw [List.map_map]
      rfl
    _ = rows.map (·.id) := by rw [hfst]

theorem find?_id (hn : (all.map (·.id)).Nodup) {row : EventRecord} (h : row ∈ all) :
    all.find? (·.id = row.id) = some row := by
  induction all with
  | nil => simp at h
  | cons r all ih =>
    obtain ⟨hr, hn'⟩ : (∀ x ∈ all, ¬ x.id = r.id) ∧ (all.map (·.id)).Nodup := by simpa using hn
    obtain rfl | hmem := List.mem_cons.1 h
    · simp
    · have hne : ¬ r.id = row.id := fun he => hr row hmem he.symm
      rw [List.find?_cons_of_neg (by simpa using hne)]
      exact ih hn' hmem

theorem continuesId_rows (hn : (all.map (·.id)).Nodup) {first last row : EventRecord}
    (hf : first ∈ all) (hl : last ∈ all) (hr : row ∈ all) :
    continuesId renderer all first.id last.id row.id = renderer.continuesRow first last row := by
  simp only [continuesId, find?_id hn hf, find?_id hn hl, find?_id hn hr]

theorem segments_rows (hn : (all.map (·.id)).Nodup) (h : ∀ row ∈ rows, row ∈ all) :
    segments (continuesId renderer all) (rows.map (·.id)) =
      (segments renderer.continuesRow rows).map (List.map (·.id)) :=
  segments_map fun a ha b hb c hc => continuesId_rows hn (h a ha) (h b hb) (h c hc)

theorem at_ok
    (hm : source.metadata = rows.map fun row => renderer.rawOf row (row.visible renderer.host))
    (hp : source.positions = rows.zipIdx.map fun p => (p.1.id, p.2))
    (hn : (rows.map (·.id)).Nodup) {row : EventRecord} (hr : row ∈ rows) :
    source.at row.id = .ok (renderer.rawOf row (row.visible renderer.host)) := by
  obtain ⟨i, hi⟩ := List.getElem?_of_mem hr
  have hpos : source.positions.lookup row.id = some i := by
    rw [hp]
    apply Dict.lookup_of_mem
    · rwa [positions_keys]
    · exact List.mem_map.2 ⟨(row, i), List.mem_zipIdx_iff_getElem?.2 hi, rfl⟩
  unfold PromptHistorySource.at
  rw [hpos, hm]
  simp [hi]

/-- Grouping one more known row, with its members read through the index. -/
theorem addToGroups_ok {known : List EventRecord} (hn : (all.map (·.id)).Nodup)
    (hat : ∀ r ∈ known, source.at r.id = .ok (renderer.rawOf r (r.visible renderer.host)))
    (hk : ∀ r ∈ known, r ∈ all) {groups : List (List EventId)} (hne : ∀ g ∈ groups, g ≠ [])
    (hg : ∀ g ∈ groups, ∀ id ∈ g, ∃ r ∈ known, r.id = id) {row : EventRecord} (hrow : row ∈ all)
    (v : Bool) : source.addToGroups groups (renderer.rawOf row v) =
      .ok (pushItem (continuesId renderer all) groups row.id) := by
  obtain rfl | ⟨gs, g, rfl⟩ := List.eq_nil_or_concat groups
  · rfl
  · rw [List.concat_eq_append] at hne hg ⊢
    have hgne : g ≠ [] := hne g (by simp)
    obtain ⟨first, hfk, hf⟩ := hg g (by simp) (g.head hgne) (List.head_mem hgne)
    obtain ⟨last, hlk, hl⟩ := hg g (by simp) (g.getLast hgne) (List.getLast_mem hgne)
    have hhead : g.head? = some first.id := by rw [hf, List.head?_eq_some_head hgne]
    have hlast : g.getLast? = some last.id := by rw [hl, List.getLast?_eq_some_getLast hgne]
    have hcont : (renderer.rawOf first (first.visible renderer.host)).continues
        (renderer.rawOf last (last.visible renderer.host)) (renderer.rawOf row v) =
        continuesId renderer all first.id last.id row.id := by
      rw [continuesId_rows hn (hk first hfk) (hk last hlk) hrow]
      rfl
    have hjoin : joins (continuesId renderer all) g row.id =
        continuesId renderer all first.id last.id row.id := by simp [joins, hhead, hlast]
    rw [pushItem_snoc, hjoin]
    unfold addToGroups
    simp only [List.getLast?_concat, hhead, hlast, Option.getD_some, hat first hfk, hat last hlk,
      hcont, bind, Except.bind, List.dropLast_concat, pure, Except.pure]
    split <;> rfl

namespace Built

theorem groups_flatten (h : Built renderer all source rows) :
    source.groups.flatten = source.visibleIds := by
  rw [h.groups, segments_flatten]

theorem groups_ne_nil (h : Built renderer all source rows) : ∀ g ∈ source.groups, g ≠ [] := by
  intro g hg
  rw [h.groups] at hg
  exact segments_ne_nil _ hg

theorem mem_visibleIds (h : Built renderer all source rows) {id : EventId} :
    id ∈ source.visibleIds ↔ ∃ r ∈ rows, r.visible renderer.host = true ∧ r.id = id := by
  simp [h.visibleIds, and_assoc]

theorem new (published : Option (List EventId)) (afterEventId : EventId) :
    Built renderer all (.new renderer.host renderer.timezone published afterEventId) [] :=
  ⟨rfl, rfl, rfl, rfl, rfl, rfl, rfl⟩

theorem rawEvent (h : Built renderer all source rows) {row : EventRecord} {item : RawEvent}
    (hi : source.rawEvent row = .ok item) :
    item = renderer.rawOf row (row.visible renderer.host) ∧
      ∃ content, eventContent renderer.host row none "" = .ok content := by
  unfold PromptHistorySource.rawEvent at hi
  rw [h.host, h.timezone] at hi
  cases hc : eventContent renderer.host row none "" with
  | error e => simp [hc, bind, Except.bind] at hi
  | ok content =>
    simp only [hc, bind, Except.bind, pure, Except.pure, Except.ok.injEq] at hi
    subst hi
    refine ⟨?_, content, rfl⟩
    simp [ChatEventPromptRenderer.rawOf, EventRecord.visible, hc,
      ChatEventPromptRenderer.groupIdentity]

/-- A new row extends the index. -/
theorem addRow (h : Built renderer all source rows) (hn : (all.map (·.id)).Nodup)
    {row : EventRecord} {later : List EventRecord} (hall : all = rows ++ row :: later)
    {added added' : List EventRecord} {source' : PromptHistorySource}
    (hadd : PromptHistorySource.addRow (source, added) row = .ok (source', added')) :
    Built renderer all source' (rows ++ [row]) ∧
      ∃ content, eventContent renderer.host row none "" = .ok content := by
  have hids : ((rows ++ [row]).map (·.id)).Nodup := by
    rw [hall] at hn
    exact List.Nodup.sublist (List.Sublist.map _ (by simp)) hn
  have hfresh : row.id ∉ Dict.keys source.positions := by
    rw [h.positions, positions_keys]
    simp only [List.map_append, List.nodup_append] at hids
    intro hm
    exact hids.2.2 _ hm _ (by simp) rfl
  have hnone : source.positions.lookup row.id = none := Dict.lookup_eq_none hfresh
  have hlen : source.metadata.length = rows.length := by rw [h.metadata, List.length_map]
  have hpositions : Dict.set source.positions row.id source.metadata.length =
      (rows ++ [row]).zipIdx.map fun p => (p.1.id, p.2) := by
    rw [Dict.set_of_not_mem hfresh, h.positions, hlen]
    simp [List.zipIdx_append]
  have hmetadata : source.metadata ++ [renderer.rawOf row (row.visible renderer.host)] =
      (rows ++ [row]).map fun row => renderer.rawOf row (row.visible renderer.host) := by
    rw [h.metadata, List.map_append, List.map_singleton]
  unfold PromptHistorySource.addRow at hadd
  cases hraw : source.rawEvent row with
  | error e => simp [hnone, hraw, bind, Except.bind] at hadd
  | ok item =>
    obtain ⟨rfl, hcontent⟩ := h.rawEvent hraw
    refine ⟨?_, hcontent⟩
    simp only [hnone, Option.isSome_none, Bool.false_eq_true, if_false, hraw, bind,
      Except.bind, hpositions, hmetadata, pure, Except.pure] at hadd
    by_cases hv : row.visible renderer.host = true
    · have hmembers : ∀ g ∈ source.groups, ∀ id ∈ g, ∃ r ∈ rows ++ [row], r.id = id := by
        intro g hg id hid
        have hmem : id ∈ source.visibleIds := by
          rw [← h.groups_flatten]
          exact List.mem_flatten_of_mem hg hid
        obtain ⟨r, hr, -, hid⟩ := h.mem_visibleIds.1 hmem
        exact ⟨r, by simp [hr], hid⟩
      have hknown : ∀ r ∈ rows ++ [row], r ∈ all := by
        intro r hr
        rw [hall]
        obtain hr | hr := List.mem_append.1 hr
        · simp [hr]
        · simp [List.mem_singleton.1 hr]
      have hat : ∀ r ∈ rows ++ [row], PromptHistorySource.at { source with
          positions := (rows ++ [row]).zipIdx.map fun p => (p.1.id, p.2)
          metadata := (rows ++ [row]).map fun row =>
            renderer.rawOf row (row.visible renderer.host) } r.id =
          .ok (renderer.rawOf r (r.visible renderer.host)) :=
        fun r hr => at_ok rfl rfl hids hr
      have hgroups := addToGroups_ok hn hat hknown h.groups_ne_nil hmembers
        (hknown row (by simp)) (row.visible renderer.host)
      have hvisible : (renderer.rawOf row (row.visible renderer.host)).visible = true := hv
      simp only [hvisible, Bool.not_true, Bool.false_eq_true, if_false, hgroups, Except.ok.injEq,
        Prod.mk.injEq] at hadd
      obtain ⟨rfl, -⟩ := hadd
      have hids' : source.visibleIds ++ [row.id] =
          ((rows ++ [row]).filter (·.visible renderer.host)).map (·.id) := by
        rw [h.visibleIds]
        simp [hv]
      refine ⟨h.host, h.timezone, rfl, rfl, hids', ?_, ?_⟩
      · dsimp only
        rw [segments_snoc, h.groups]
      · have hunseen : row.id ∉ source.groups.flatten := by
          rw [h.groups_flatten, h.visibleIds]
          intro hm
          obtain ⟨r, hr, hid⟩ := List.mem_map.1 hm
          have hr' : row.id ∈ rows.map (·.id) :=
            hid ▸ List.mem_map_of_mem (List.mem_of_mem_filter hr)
          simp only [List.map_append, List.nodup_append] at hids
          exact hids.2.2 _ hr' _ (by simp) rfl
        dsimp only
        rw [h.groupOf, numbering_push _ hunseen]
    · have hhidden : (renderer.rawOf row (row.visible renderer.host)).visible = false := by
        simpa [ChatEventPromptRenderer.rawOf] using hv
      simp only [hhidden, Bool.not_false, if_true, Except.ok.injEq, Prod.mk.injEq] at hadd
      obtain ⟨rfl, -⟩ := hadd
      refine ⟨h.host, h.timezone, rfl, rfl, ?_, h.groups, h.groupOf⟩
      dsimp only
      rw [h.visibleIds]
      simp [hv]

theorem addRows (hn : (all.map (·.id)).Nodup) {batch : List EventRecord}
    (h : Built renderer all source rows) {later : List EventRecord}
    (hall : all = rows ++ batch ++ later) {added added' : List EventRecord}
    {source' : PromptHistorySource}
    (hadd : batch.foldlM PromptHistorySource.addRow (source, added) = .ok (source', added')) :
    Built renderer all source' (rows ++ batch) ∧
      ∀ row ∈ batch, ∃ content, eventContent renderer.host row none "" = .ok content := by
  induction batch generalizing source rows added with
  | nil =>
    simp only [List.foldlM_nil, pure, Except.pure, Except.ok.injEq, Prod.mk.injEq] at hadd
    obtain ⟨rfl, -⟩ := hadd
    exact ⟨by simpa using h, by simp⟩
  | cons row batch ih =>
    rw [List.foldlM_cons] at hadd
    cases hrow : PromptHistorySource.addRow (source, added) row with
    | error e => simp [hrow, bind, Except.bind] at hadd
    | ok state =>
      simp only [hrow, bind, Except.bind] at hadd
      obtain ⟨hbuilt, hcontent⟩ := h.addRow hn (by simpa using hall) hrow
      obtain ⟨hbuilt', hrest⟩ := ih hbuilt (by simpa using hall) hadd
      refine ⟨by simpa using hbuilt', ?_⟩
      intro r hr
      obtain rfl | hr := List.mem_cons.1 hr
      · exact hcontent
      · exact hrest r hr

theorem extend (hn : (all.map (·.id)).Nodup) {batch later : List EventRecord}
    (h : Built renderer all source rows) (hall : all = rows ++ batch ++ later)
    {throughEventId : EventId} {source' : PromptHistorySource}
    (hext : source.extend batch throughEventId = .ok source') :
    Built renderer all source' (rows ++ batch) ∧
      ∀ row ∈ batch, ∃ content, eventContent renderer.host row none "" = .ok content := by
  unfold PromptHistorySource.extend at hext
  cases hadd : batch.foldlM PromptHistorySource.addRow (source, []) with
  | error e => simp [hadd, bind, Except.bind] at hext
  | ok state =>
    simp only [hadd, bind, Except.bind, pure, Except.pure, Except.ok.injEq] at hext
    obtain ⟨hbuilt, hcontent⟩ := h.addRows hn hall hadd
    subst hext
    exact ⟨⟨hbuilt.host, hbuilt.timezone, hbuilt.metadata, hbuilt.positions, hbuilt.visibleIds,
      hbuilt.groups, hbuilt.groupOf⟩, hcontent⟩

end Built

/-- The source after some batches of rows. -/
def extendAll (source : PromptHistorySource) (batches : List (List EventRecord × EventId)) :
    Except Err PromptHistorySource :=
  batches.foldlM (fun source batch => source.extend batch.1 batch.2) source

/-- However the rows were split, the source ends with the index of all of them. -/
theorem Built.extendAll (hn : (all.map (·.id)).Nodup) {batches : List (List EventRecord × EventId)}
    (h : Built renderer all source rows) (hall : all = rows ++ batches.flatMap (·.1))
    {source' : PromptHistorySource}
    (hext : source.extendAll batches = .ok source') :
    Built renderer all source' all ∧ ∀ row ∈ batches.flatMap (·.1),
      ∃ content, eventContent renderer.host row none "" = .ok content := by
  induction batches generalizing source rows with
  | nil =>
    simp only [PromptHistorySource.extendAll, List.foldlM_nil, pure, Except.pure,
      Except.ok.injEq] at hext
    subst hext
    exact ⟨by simpa [hall] using h, by simp⟩
  | cons batch batches ih =>
    rw [PromptHistorySource.extendAll, List.foldlM_cons] at hext
    cases hone : source.extend batch.1 batch.2 with
    | error e => simp [hone, bind, Except.bind] at hext
    | ok middle =>
      simp only [hone, bind, Except.bind] at hext
      obtain ⟨hbuilt, hcontent⟩ := h.extend hn (by simpa using hall) hone
      obtain ⟨hbuilt', hrest⟩ := ih hbuilt (by simpa using hall) hext
      refine ⟨hbuilt', ?_⟩
      intro r hr
      obtain hr | hr := List.mem_append.1 (List.flatMap_cons ▸ hr)
      · exact hcontent r hr
      · exact hrest r hr

end PromptHistorySource

end Yuki

import Yuki.Conversation.PromptHistory

/-! What the history views hold: the groups of the visible rows, each rendered
as one fragment, and every visible row on its own. -/

namespace Yuki

/-! Line breaks survive stripping. -/

theorem dropWhile_append_keep {p : Char → Bool} {c : Char} (hc : p c = false) (xs ys : List Char) :
    ∃ zs, (xs ++ c :: ys).dropWhile p = zs ++ c :: ys := by
  induction xs with
  | nil => exact ⟨[], by simp [hc]⟩
  | cons x xs ih =>
    by_cases hx : p x = true
    · obtain ⟨zs, hz⟩ := ih
      exact ⟨zs, by simp [hx, hz]⟩
    · exact ⟨x :: xs, by simp [hx]⟩

/-- What follows some occurrence follows the first one. -/
theorem suffix_of_first {c : Char} {before after xs ys : List Char} (hn : c ∉ before)
    (h : before ++ c :: after = xs ++ c :: ys) : ∃ zs, after = zs ++ ys := by
  induction before generalizing xs with
  | nil =>
    cases xs with
    | nil => exact ⟨[], by simpa using h⟩
    | cons x xs =>
      have htail : after = xs ++ c :: ys := (List.cons.inj h).2
      exact ⟨xs ++ [c], by simpa using htail⟩
  | cons b before ih =>
    obtain ⟨hb, hn'⟩ : c ≠ b ∧ c ∉ before := by simpa using hn
    cases xs with
    | nil => exact absurd (List.cons.inj h).1.symm hb
    | cons x xs => exact ih hn' (List.cons.inj h).2

theorem strip_keep {c d : Char} (hc : isSpace c = false) (hd : isSpace d = false)
    (xs ys : List Char) : ∃ zs, (strip (String.ofList (c :: xs ++ d :: ys))).toList =
      c :: xs ++ d :: zs := by
  have hleft : (c :: xs ++ d :: ys).dropWhile isSpace = c :: xs ++ d :: ys := by simp [hc]
  have hrev : (c :: xs ++ d :: ys).reverse = ys.reverse ++ d :: (c :: xs).reverse := by simp
  obtain ⟨zs, hz⟩ := dropWhile_append_keep hd ys.reverse (c :: xs).reverse
  refine ⟨zs.reverse, ?_⟩
  simp only [strip, String.toList_ofList, hleft, hrev, hz]
  simp

namespace ChatEventPromptRenderer

theorem partitionLine_eq {text : String} {before after : List Char} (hn : '\n' ∉ before)
    (h : text.toList = before ++ '\n' :: after) :
    partitionLine text = (.ofList before, some (.ofList after)) := by
  have htake : text.toList.takeWhile (fun c => decide (c ≠ '\n')) = before := by
    rw [h, List.takeWhile_append_of_pos]
    · simp
    · intro c hc
      have hne : c ≠ '\n' := fun he => hn (he ▸ hc)
      simpa using hne
  unfold partitionLine
  rw [htake, h]
  simp

theorem exists_partitionLine {text : String} (h : '\n' ∈ text.toList) :
    ∃ before after, '\n' ∉ before ∧ text.toList = before ++ '\n' :: after ∧
      partitionLine text = (.ofList before, some (.ofList after)) := by
  obtain ⟨before, after, he, hn⟩ := List.eq_append_cons_of_mem h
  exact ⟨before, after, hn, he, partitionLine_eq hn he⟩

/-- The line break before a visible mark stays when the text is stripped. -/
theorem strip_clock (clock : String) (head : List Char) {after : List Char} (h : '>' ∈ after) :
    strip ("[" ++ clock ++ "｜" ++ String.ofList (head.drop 1) ++ "\n" ++ String.ofList after) ≠ "" ∧
      ∃ line, (partitionLine (strip ("[" ++ clock ++ "｜" ++ String.ofList (head.drop 1) ++ "\n" ++
        String.ofList after))).2 = some line := by
  obtain ⟨xs, ys, rfl⟩ := List.append_of_mem h
  have hshape : "[" ++ clock ++ "｜" ++ String.ofList (head.drop 1) ++ "\n" ++
      String.ofList (xs ++ '>' :: ys) = String.ofList ('[' :: (clock.toList ++ '｜' :: head.drop 1 ++
        '\n' :: xs) ++ '>' :: ys) := by
    rw [← String.toList_inj]
    simp
  obtain ⟨zs, hz⟩ := strip_keep (c := '[') (d := '>') rfl rfl
    (clock.toList ++ '｜' :: head.drop 1 ++ '\n' :: xs) ys
  rw [hshape]
  have hbreak : '\n' ∈ (strip (.ofList ('[' :: (clock.toList ++ '｜' :: head.drop 1 ++ '\n' :: xs) ++
      '>' :: ys))).toList := by
    rw [hz]
    simp
  obtain ⟨line, rest, -, -, hline⟩ := exists_partitionLine hbreak
  refine ⟨?_, .ofList rest, by rw [hline]⟩
  intro h0
  rw [h0] at hbreak
  simp at hbreak

variable (renderer : ChatEventPromptRenderer)

/-- A visible message renders to an envelope and an event line. -/
theorem renderReferenceEvent_visible {row : EventRecord} {content : String}
    (hkind : row.eventKind = .message)
    (hc : eventContent renderer.host row none "" = .ok content) (hne : content ≠ "") :
    ∃ envelope fields, renderer.renderReferenceEvent row none "" =
      .ok (envelope ++ "\n" ++ fields ++ ">" ++ content) := by
  unfold renderReferenceEvent
  rw [hc]
  simp only [bind, Except.bind, hne, if_false, hkind, reduceCtorEq, pure, Except.pure]
  exact ⟨_, _, rfl⟩

/-- The message of a visible row keeps a line break when it is stripped. -/
theorem referenceMessage_visible {row : EventRecord} {content : String}
    (hkind : row.eventKind = .message)
    (hc : eventContent renderer.host row none "" = .ok content) (hne : content ≠ "") :
    ∃ message line, renderer.referenceMessage row none "" = .ok message ∧
      strip message.content ≠ "" ∧ (partitionLine (strip message.content)).2 = some line := by
  obtain ⟨envelope, fields, hr⟩ := renderer.renderReferenceEvent_visible hkind hc hne
  have htext : (envelope ++ "\n" ++ fields ++ ">" ++ content).toList =
      envelope.toList ++ '\n' :: (fields.toList ++ '>' :: content.toList) := by simp
  have hmem : '\n' ∈ (envelope ++ "\n" ++ fields ++ ">" ++ content).toList := by
    rw [htext]
    simp
  obtain ⟨before, after, hn, he, hp⟩ := exists_partitionLine hmem
  obtain ⟨zs, hz⟩ := suffix_of_first hn (he.symm.trans htext)
  unfold referenceMessage
  rw [hr]
  have hpos : envelope ++ "\n" ++ fields ++ ">" ++ content ≠ "" := by
    intro h0
    simp [h0] at hmem
  simp only [bind, Except.bind, hkind, hpos, ne_eq, not_false_eq_true, and_self, if_true, hp, pure,
    Except.pure]
  have hgt : '>' ∈ after := by simp [hz]
  obtain ⟨hblank, line, hline⟩ := strip_clock (renderer.host.localClock row.occurredAt
    renderer.timezone) (String.ofList before).toList hgt
  exact ⟨_, line, rfl, hblank, hline⟩

theorem referenceMessage_blank {row : EventRecord}
    (hc : eventContent renderer.host row none "" = .ok "") :
    renderer.referenceMessage row none "" = .ok ⟨row.role, ""⟩ := by
  have hr : renderer.renderReferenceEvent row none "" = .ok "" := by
    unfold renderReferenceEvent
    rw [hc]
    rfl
  unfold referenceMessage
  rw [hr]
  simp [bind, Except.bind, pure, Except.pure]

/-! The views as groups of rows. -/

def messageOf (row : EventRecord) : ChatMessage :=
  (renderer.referenceMessage row none "").toOption.getD ⟨row.role, ""⟩

def eventLine (row : EventRecord) : String :=
  (partitionLine (strip (renderer.messageOf row).content)).2.getD ""

def single (row : EventRecord) : EventFragment :=
  ([row.id], renderer.messageOf row)

def openGroup : List EventRecord → Option HistoryGroup
  | [] => none
  | first :: rest => some {
      ids := first.id :: rest.map (·.id)
      lines := (renderer.messageOf first).content :: rest.map renderer.eventLine
      first := renderer.messageOf first
      key := renderer.groupIdentity first
      startUtc := first.occurredAt
      lastUtc := ((first :: rest).getLast?.map (·.occurredAt)).getD 0
      localDay := renderer.host.localDay first.occurredAt renderer.timezone }

/-- The fragment of a group of rows. -/
def batch (rows : List EventRecord) : List (EventId × EventFragment) :=
  HistoryGroup.finish (renderer.openGroup rows)

def rawOf (row : EventRecord) (visible : Bool) : RawEvent :=
  ⟨row.metadata, renderer.groupIdentity row, row.occurredAt,
    renderer.host.localDay row.occurredAt renderer.timezone, visible⟩

def continuesRow (first last row : EventRecord) : Bool :=
  (renderer.rawOf first true).continues (renderer.rawOf last true) (renderer.rawOf row true)

def viewsOf (rows : List EventRecord) : HistoryViews :=
  let groups := segments renderer.continuesRow rows
  ⟨groups.dropLast.flatMap renderer.batch, rows.map fun row => (row.id, renderer.single row),
    groups.getLast?.bind renderer.openGroup⟩

end ChatEventPromptRenderer

/-- Whether an event shows anything. -/
def EventRecord.visible (host : Host) (row : EventRecord) : Bool :=
  decide (eventContent host row none "" ≠ .ok "")

/-- A message event whose content renders. -/
def EventRecord.Readable (host : Host) (row : EventRecord) : Prop :=
  row.eventKind = .message ∧ ∃ content, eventContent host row none "" = .ok content

namespace ChatEventPromptRenderer

variable (renderer : ChatEventPromptRenderer)

theorem viewRow_blank {row : EventRecord} (h : row.Readable renderer.host)
    (hv : row.visible renderer.host = false) (views : HistoryViews) :
    renderer.viewRow views row = .ok views := by
  have hc : eventContent renderer.host row none "" = .ok "" := by
    simpa [EventRecord.visible] using hv
  unfold viewRow
  rw [renderer.referenceMessage_blank hc]
  simp only [h.1, reduceCtorEq, if_false, bind, Except.bind]
  rfl

theorem messageOf_visible {row : EventRecord} (h : row.Readable renderer.host)
    (hv : row.visible renderer.host = true) :
    renderer.referenceMessage row none "" = .ok (renderer.messageOf row) ∧
      strip (renderer.messageOf row).content ≠ "" ∧
      (partitionLine (strip (renderer.messageOf row).content)).2 =
        some (renderer.eventLine row) := by
  obtain ⟨hkind, content, hc⟩ := h
  have hne : content ≠ "" := by
    intro h0
    simp [EventRecord.visible, hc, h0] at hv
  obtain ⟨message, line, hm, hs, hl⟩ := renderer.referenceMessage_visible hkind hc hne
  have hmsg : renderer.messageOf row = message := by
    simp [messageOf, hm, Except.toOption]
  refine ⟨hmsg ▸ hm, hmsg ▸ hs, ?_⟩
  simp [eventLine, hmsg, hl]

theorem within_openGroup {first : EventRecord} {rest : List EventRecord} {group : HistoryGroup}
    (hg : renderer.openGroup (first :: rest) = some group) (row : EventRecord) :
    group.within (renderer.groupIdentity row) row.occurredAt
      (renderer.host.localDay row.occurredAt renderer.timezone) =
      joins renderer.continuesRow (first :: rest) row := by
  obtain ⟨last, hlast⟩ : ∃ last, (first :: rest).getLast? = some last :=
    ⟨_, List.getLast?_eq_some_getLast (by simp)⟩
  simp only [openGroup, hlast, Option.some.injEq] at hg
  subst hg
  simp only [HistoryGroup.within, joins, hlast, List.head?_cons, continuesRow, RawEvent.continues,
    rawOf, Option.map_some, Option.getD_some, and_assoc]

theorem openGroup_snoc {first : EventRecord} {rest : List EventRecord} {group : HistoryGroup}
    (hg : renderer.openGroup (first :: rest) = some group) (row : EventRecord) :
    renderer.openGroup (first :: rest ++ [row]) = some { group with
      ids := group.ids ++ [row.id]
      lines := group.lines ++ [renderer.eventLine row]
      lastUtc := row.occurredAt } := by
  simp only [openGroup, Option.some.injEq] at hg
  subst hg
  have hlast : (first :: (rest ++ [row])).getLast? = some row := by
    rw [← List.cons_append, List.getLast?_concat]
  simp [openGroup, hlast]

/-- A visible row joins the last group or opens one. -/
theorem viewRow_visible {row : EventRecord} (h : row.Readable renderer.host)
    (hv : row.visible renderer.host = true) (rows : List EventRecord) :
    renderer.viewRow (renderer.viewsOf rows) row = .ok (renderer.viewsOf (rows ++ [row])) := by
  obtain ⟨hm, hs, hl⟩ := renderer.messageOf_visible h hv
  unfold viewRow
  rw [hm]
  have hindividual : (rows ++ [row]).map (fun row => (row.id, renderer.single row)) =
      rows.map (fun row => (row.id, renderer.single row)) ++
        [(row.id, [row.id], renderer.messageOf row)] := by simp [single]
  simp only [h.1, reduceCtorEq, if_false, bind, Except.bind, pure, Except.pure, hs, viewsOf,
    segments_snoc, hindividual]
  obtain hnil | ⟨gs, g, hgs⟩ := List.eq_nil_or_concat (segments renderer.continuesRow rows)
  · simp [hnil, pushItem, openGroup]
  · rw [List.concat_eq_append] at hgs
    have hmem : g ∈ segments renderer.continuesRow rows := by simp [hgs]
    obtain ⟨first, rest, rfl⟩ := List.exists_cons_of_ne_nil (segments_ne_nil _ hmem)
    obtain ⟨group, hgroup⟩ : ∃ group, renderer.openGroup (first :: rest) = some group := ⟨_, rfl⟩
    have hwithin := renderer.within_openGroup hgroup row
    rw [hgs, pushItem_snoc]
    simp only [List.getLast?_concat, Option.bind_some, hgroup, hwithin,
      List.dropLast_concat]
    by_cases hj : joins renderer.continuesRow (first :: rest) row = true
    · generalize partitionLine (strip (renderer.messageOf row).content) = parts at hl ⊢
      obtain ⟨before, after⟩ := parts
      obtain rfl : after = some (renderer.eventLine row) := hl
      have hjoined := renderer.openGroup_snoc hgroup row
      simp only [hj, if_true, List.dropLast_concat, List.getLast?_concat, Option.bind_some,
        hjoined]
    · have hfinish : renderer.batch (first :: rest) = HistoryGroup.finish (some group) := by
        rw [batch, hgroup]
      simp only [hj, Bool.false_eq_true, if_false, List.dropLast_concat, List.getLast?_concat,
        Option.bind_some, List.flatMap_append, List.flatMap_singleton, hfinish]
      rfl

theorem foldlM_viewRow {rows : List EventRecord} (h : ∀ row ∈ rows, row.Readable renderer.host)
    (before : List EventRecord) : rows.foldlM renderer.viewRow (renderer.viewsOf before) =
      .ok (renderer.viewsOf (before ++ rows.filter (·.visible renderer.host))) := by
  induction rows generalizing before with
  | nil => simp [pure, Except.pure]
  | cons row rows ih =>
    have hrow := h row (by simp)
    have hrest : ∀ r ∈ rows, r.Readable renderer.host := fun r hr => h r (by simp [hr])
    rw [List.foldlM_cons]
    by_cases hv : row.visible renderer.host = true
    · rw [renderer.viewRow_visible hrow hv before]
      simp only [bind, Except.bind]
      rw [ih hrest, List.filter_cons_of_pos hv, List.append_assoc]
      rfl
    · rw [renderer.viewRow_blank hrow (by simpa using hv)]
      simp only [bind, Except.bind]
      rw [ih hrest, List.filter_cons_of_neg hv]

/-- The views of readable messages: the groups of the visible ones, and these one by one. -/
theorem mainAgentHistoryViews_eq {rows : List EventRecord}
    (h : ∀ row ∈ rows, row.Readable renderer.host) :
    renderer.mainAgentHistoryViews rows = .ok
      ((segments renderer.continuesRow (rows.filter (·.visible renderer.host))).flatMap
        renderer.batch, (rows.filter (·.visible renderer.host)).map fun row =>
          (row.id, renderer.single row)) := by
  have hfold := renderer.foldlM_viewRow h []
  have hstart : renderer.viewsOf [] = ⟨[], [], none⟩ := rfl
  rw [hstart, List.nil_append] at hfold
  unfold mainAgentHistoryViews
  rw [hfold]
  simp only [bind, Except.bind, pure, Except.pure, viewsOf]
  obtain hnil | ⟨gs, g, hgs⟩ := List.eq_nil_or_concat
    (segments renderer.continuesRow (rows.filter (·.visible renderer.host)))
  · simp [hnil, HistoryGroup.finish]
  · rw [List.concat_eq_append] at hgs
    simp [hgs, batch]

end ChatEventPromptRenderer

end Yuki

import Yuki.Outbound.Divided

/-! The parts of a long message: both paths cut a plain part the same way, and a code block
unless its line breaks or its groups of lines are counted differently. -/

namespace Yuki.Outbound

open Pieces

variable {part block : TransportMessage} {text opening body closing : Text} {limit room : Nat}

/-- The text between the first and the last line of a block. -/
def innerText (block : Text) : Text :=
  textAt block (openingEnd block, closingStart block)

/-- A code block that both paths divide at the same lines: it has a body that no line break ends
and, where it is too long, only line feeds as line breaks, and no group of its lines that follows
a full one is filled up exactly. -/
structure Evenly (limit : Nat) (block : Text) : Prop where
  body : innerText block ≠ []
  ended : ∀ c ∈ (innerText block).getLast?, c ≠ '\r' ∧ c ≠ '\n'
  breaks : limit < block.length → ∀ c ∈ block, isLineBreak c = true → c = '\n'
  groups : limit < block.length →
    fillsUp (available block limit) false none (bodyLines block) = false

theorem evenly_iff (limit : Nat) (block : Text) : Evenly limit block ↔
    innerText block ≠ [] ∧
      ((innerText block).getLast?.all fun c => c != '\r' && c != '\n') = true ∧
      (limit < block.length → (block.all fun c => !isLineBreak c || c == '\n') = true) ∧
      (limit < block.length →
        fillsUp (available block limit) false none (bodyLines block) = false) := by
  have hended : ((innerText block).getLast?.all fun c => c != '\r' && c != '\n') = true ↔
      ∀ c ∈ (innerText block).getLast?, c ≠ '\r' ∧ c ≠ '\n' := by
    cases (innerText block).getLast? with
    | none => simp
    | some c => simp
  have hbreaks : (block.all fun c => !isLineBreak c || c == '\n') = true ↔
      ∀ c ∈ block, isLineBreak c = true → c = '\n' := by
    rw [List.all_eq_true]
    refine forall₂_congr fun c _ => ?_
    cases isLineBreak c <;> simp
  rw [hended, hbreaks]
  exact ⟨fun ⟨body, ended, breaks, groups⟩ => ⟨body, ended, breaks, groups⟩,
    fun ⟨body, ended, breaks, groups⟩ => ⟨body, ended, breaks, groups⟩⟩

instance (limit : Nat) (block : Text) : Decidable (Evenly limit block) :=
  decidable_of_iff _ (evenly_iff limit block).symm

/-! The lines of a block. -/

/-- A text of an opening line, a body and a closing line. -/
structure Enclosed (text opening body closing : Text) : Prop where
  text_eq : text = opening ++ '\n' :: (body ++ '\n' :: closing)
  opened : '\n' ∉ opening
  closed : '\n' ∉ closing

namespace Enclosed

theorem openingEnd (h : Enclosed text opening body closing) :
    openingEnd text = opening.length + 1 := by
  rw [Outbound.openingEnd, h.text_eq, List.takeWhile_append_of_pos]
  · simp
  · intro c hc
    have hne : c ≠ '\n' := fun heq => h.opened (heq ▸ hc)
    simpa using hne

theorem closingStart (h : Enclosed text opening body closing) :
    closingStart text = opening.length + 1 + body.length := by
  have hlast : (text.reverse.takeWhile (· != '\n')).length = closing.length := by
    rw [h.text_eq, List.reverse_append, List.reverse_cons, List.reverse_append, List.reverse_cons,
      List.append_assoc, List.append_assoc, List.append_assoc, List.takeWhile_append_of_pos]
    · simp
    · intro c hc
      have hne : c ≠ '\n' := fun heq => h.closed (heq ▸ List.mem_reverse.mp hc)
      simpa using hne
  rw [Outbound.closingStart, hlast, h.text_eq]
  simp only [List.length_append, List.length_cons]
  omega

theorem innerText (h : Enclosed text opening body closing) : innerText text = body := by
  have hdrop : text.drop (opening.length + 1) = body ++ '\n' :: closing := by
    rw [h.text_eq, List.drop_length_add_append]
    rfl
  rw [Outbound.innerText, h.openingEnd, h.closingStart]
  exact textAt_of_drop hdrop

theorem length (h : Enclosed text opening body closing) :
    text.length = opening.length + 1 + body.length + 1 + closing.length := by
  rw [h.text_eq]
  simp only [List.length_append, List.length_cons]
  omega

theorem codeOpening (h : Enclosed block.text opening body closing) :
    codeOpening block = opening ++ ['\n'] := by
  rw [Outbound.codeOpening, h.openingEnd, h.text_eq, List.take_length_add_append]
  rfl

theorem codeClosing (h : Enclosed block.text opening body closing) :
    codeClosing block = '\n' :: closing := by
  rw [Outbound.codeClosing, h.closingStart, h.text_eq, Nat.add_assoc, List.drop_length_add_append,
    Nat.add_comm, List.drop_succ_cons, List.drop_left]

theorem enclosed_text (h : Enclosed block.text opening body closing) (inner : TransportMessage) :
    (enclosed (Outbound.codeOpening block) (Outbound.codeClosing block) inner).text =
      opening ++ '\n' :: (inner.text ++ '\n' :: closing) := by
  rw [enclosed, h.codeOpening, h.codeClosing]
  simp

end Enclosed

/-- A fenced block stands between its marks. -/
theorem isCode_cases (h : isCode text = true) :
    ∃ mark opening body, (mark = backticks ∨ mark = tildes) ∧
      Enclosed text (mark ++ opening) body mark := by
  obtain ⟨mark, hkind, hfront, hsuffix, hlength⟩ := exists_fence h
  obtain ⟨rest, rfl⟩ := List.isPrefixOf_iff_prefix.mp hfront
  have hpure : '\n' ∉ mark := by rcases hkind with rfl | rfl <;> decide
  have hline : (mark ++ rest).takeWhile (· != '\n') = mark ++ rest.takeWhile (· != '\n') :=
    List.takeWhile_append_of_pos fun c hc => by
      have hne : c ≠ '\n' := fun heq => hpure (heq ▸ hc)
      simpa using hne
  rcases drop_line (mark ++ rest) with hnone | hsplit
  · have hzero := congrArg List.length hnone
    rw [List.length_drop, List.length_nil] at hzero
    omega
  · obtain ⟨tail, htail⟩ : ∃ tail, tail = (mark ++ rest).drop
      (((mark ++ rest).takeWhile (· != '\n')).length + 1) := ⟨_, rfl⟩
    have hshorter : ('\n' :: mark).length ≤ tail.length := by
      rw [htail, List.length_drop, List.length_cons]
      omega
    have hends := List.suffix_of_suffix_length_le (List.isSuffixOf_iff_suffix.mp hsuffix)
      (htail ▸ List.drop_suffix _ _) hshorter
    obtain ⟨body, hbody⟩ := hends
    refine ⟨mark, rest.takeWhile (· != '\n'), body, hkind, ?_, ?_, hpure⟩
    · rw [← hline, hbody, htail]
      exact hsplit
    · rw [← hline]
      intro hmem
      simpa using List.mem_takeWhile_imp hmem

theorem startsWithFence_of_isCode (h : isCode text = true) : startsWithFence text = true := by
  obtain ⟨mark, opening, body, hmark, henclosed⟩ := isCode_cases h
  rw [henclosed.text_eq]
  rcases hmark with rfl | rfl <;> simp [startsWithFence]

/-- The lines of a block whose line breaks are line feeds. -/
theorem splitlines_enclosed (h : Enclosed text opening body closing) (hne : closing ≠ [])
    (hbreaks : ∀ c ∈ text, isLineBreak c = true → c = '\n') :
    ∃ lines, lines ≠ [] ∧ joinLines lines = body ∧ (∀ line ∈ lines, breakless line) ∧
      splitlines text = opening :: (lines ++ [closing]) := by
  have hpure : ∀ line, '\n' ∉ line → (∀ c ∈ line, c ∈ text) → breakless line := by
    intro line hline hmem c hc
    cases hbreak : isLineBreak c with
    | false => rfl
    | true => exact absurd (hbreaks c (hmem c hc) hbreak ▸ hc) hline
  have hopening := hpure opening h.opened fun c hc => by simp [h.text_eq, hc]
  have hclosing := hpure closing h.closed fun c hc => by simp [h.text_eq, hc]
  obtain ⟨lines, hlines, hjoin, hall⟩ := @exists_lines body fun c hc =>
    hbreaks c (by simp [h.text_eq, hc])
  refine ⟨lines, hlines, hjoin, hall, ?_⟩
  rw [h.text_eq, ← hjoin, splitlines_newline hopening, splitlines_joinLines hlines hall,
    splitlines_breakless hclosing hne]

/-- A body that no line feed ends has a last line that is not blank. -/
theorem last_line_ne_nil {lines : List Text} (hne : joinLines lines ≠ [])
    (hlast : ∀ c ∈ (joinLines lines).getLast?, c ≠ '\n') : lines.getLastD [] ≠ [] := by
  rcases List.eq_nil_or_concat lines with rfl | ⟨before, last, rfl⟩
  · exact absurd rfl hne
  · rw [List.concat_eq_append, List.getLastD_concat]
    rintro rfl
    rw [List.concat_eq_append] at hne hlast
    by_cases hbefore : before = []
    · rw [hbefore] at hne
      exact hne rfl
    · rw [joinLines_concat hbefore] at hlast
      exact hlast '\n' (by simp) rfl

/-! The chunks of a block. -/

theorem codeParts_texts (hcode : codeSection block = true)
    (hms : Placed 0 block.text.length block.mentions)
    (hhoused : Housed (codeBody block).mentions (within (codeRoom block limit)
      (lineSpans 0 (splitlinesKeep (innerText block.text)))))
    (heven : Evenly limit block.text) :
    ∃ parts, codeParts limit block = .ok parts ∧
      parts.map (·.text) = splitPart limit block.text := by
  have hisCode := (codeSection_range hcode).1
  have hfence := startsWithFence_of_isCode hisCode
  obtain ⟨mark, opening, body, hmark, henclosed⟩ := isCode_cases hisCode
  have hmarkNe : mark ≠ [] := by rcases hmark with rfl | rfl <;> simp [backticks, tildes]
  have hinner := henclosed.innerText
  have hlength := henclosed.length
  have hroom : codeRoom block limit = max 1 (limit - (mark ++ opening).length - mark.length - 2) := by
    rw [codeRoom, henclosed.codeOpening, henclosed.codeClosing, List.length_append,
      List.length_singleton, List.length_cons]
    congr 1
    omega
  have hpos : 1 ≤ codeRoom block limit := Nat.le_max_left ..
  obtain ⟨divided, hrun, htexts⟩ := divided_texts hpos
    (covering_codeGroups (codeRoom block limit) (codeBody block)) (codeBody_spec hcode hms).1
    (housed_codeGroups hhoused)
  refine ⟨divided.flatten.map (enclosed (codeOpening block) (codeClosing block)), ?_, ?_⟩
  · unfold codeParts
    dsimp only
    rw [codeBodies_eq hcode hms, List.flatMap_singleton, hrun]
    rfl
  have hwrapped : (divided.flatten.map (enclosed (codeOpening block) (codeClosing block))).map
      (·.text) = (divided.flatten.map (·.text)).map fun inner =>
        mark ++ opening ++ '\n' :: (inner ++ '\n' :: mark) := by
    rw [List.map_map, List.map_map]
    exact List.map_congr_left fun inner _ => henclosed.enclosed_text inner
  have hbodyText : (codeBody block).text = body := hinner
  rw [hwrapped, htexts, codeGroups, hbodyText]
  obtain ⟨hne, hended, hbreaks, hgroups⟩ := heven
  rw [hinner] at hne hended
  by_cases hlong : limit < block.text.length
  · obtain ⟨lines, hlines, hjoin, hall, hsplit⟩ :=
      splitlines_enclosed henclosed hmarkNe (hbreaks hlong)
    have hthree : 3 ≤ (splitlines block.text).length := by
      have hpos := List.length_pos_of_ne_nil hlines
      rw [hsplit]
      simp only [List.length_cons, List.length_append, List.length_nil]
      omega
    have hopeningLine : openingLine block.text = mark ++ opening := by rw [openingLine, hsplit]; rfl
    have hclosingLine : closingLine block.text = mark := by
      rw [closingLine, hsplit, List.getLastD_cons, List.getLastD_concat]
    have hbodyLines : bodyLines block.text = lines := by
      rw [bodyLines, hsplit, List.tail_cons, List.dropLast_concat]
    have havailable : available block.text limit = codeRoom block limit := by
      rw [available, hopeningLine, hclosingLine, hroom]
    have hfills := hgroups hlong
    rw [havailable, hbodyLines] at hfills
    rw [← hjoin] at hne hended ⊢
    have hgrouped := flatMap_lineGroups hlines hall
      (last_line_ne_nil hne fun c hc => (hended c hc).2) hfills
    rw [hgrouped, splitPart_lines hfence hlong hthree, havailable, hbodyLines]
    refine List.map_congr_left fun inner _ => ?_
    rw [reopened, hopeningLine, hclosingLine]
    exact (List.append_assoc (mark ++ opening) ('\n' :: inner) ('\n' :: mark)).symm
  · rw [groupSpans_body hne hended (by omega), List.flatMap_singleton, textAt_all, bounded,
      if_pos (by omega), List.map_singleton, splitPart_short hfence (Or.inl (by omega)),
      ← henclosed.text_eq]

end Yuki.Outbound

import Yuki.Outbound.Blocks
import Yuki.Outbound.Sections
import Yuki.Outbound.SpanTexts

/-! The lines of a code block, on its text and on its spans: both cuts group them the same way
unless a group that follows a full one is filled up exactly. -/

namespace Yuki.Outbound

open Pieces

variable {text : Text} {room : Nat} {lines : List Text}

/-- A group of code lines that was opened where the one before it was full has the length of the
room; `size` is the length of the group so far. -/
def fillsUp (room : Nat) : Bool → Option Nat → List Text → Bool
  | _, _, [] => false
  | _, none, line :: lines =>
    fillsUp room false (if room < line.length then none else some line.length) lines
  | opened, some size, line :: lines =>
    if room < line.length then fillsUp room false none lines
    else if size + 1 + line.length ≤ room then
      (opened && size + 1 + line.length == room) ||
        fillsUp room opened (some (size + 1 + line.length)) lines
    else fillsUp room true (some line.length) lines

/-! Lines that only line feeds part. -/

def breakless (line : Text) : Prop :=
  ∀ c ∈ line, isLineBreak c = false

theorem joinLines_cons_cons (line next : Text) (rest : List Text) :
    joinLines (line :: next :: rest) = line ++ '\n' :: joinLines (next :: rest) := rfl

theorem joinLines_cons (line : Text) (lines : List Text) :
    joinLines (line :: lines) = line ++ lines.flatMap ('\n' :: ·) := by
  induction lines generalizing line with
  | nil => exact (List.append_nil line).symm
  | cons next rest ih => rw [joinLines_cons_cons, ih, List.flatMap_cons, List.cons_append]

theorem joinLines_concat (hne : lines ≠ []) (line : Text) :
    joinLines (lines ++ [line]) = joinLines lines ++ '\n' :: line := by
  cases lines with
  | nil => exact absurd rfl hne
  | cons first rest =>
    rw [List.cons_append, joinLines_cons, joinLines_cons, List.flatMap_append,
      List.flatMap_singleton, List.append_assoc]

/-- A text whose line breaks are line feeds consists of lines that these part. -/
theorem exists_lines {t : Text} (h : ∀ c ∈ t, isLineBreak c = true → c = '\n') :
    ∃ lines, lines ≠ [] ∧ joinLines lines = t ∧ ∀ line ∈ lines, breakless line := by
  induction t with
  | nil => exact ⟨[[]], by simp, rfl, by simp [breakless]⟩
  | cons c t ih =>
    obtain ⟨lines, hne, hjoin, hall⟩ := ih fun d hd => h d (List.mem_cons_of_mem _ hd)
    cases lines with
    | nil => exact absurd rfl hne
    | cons line lines =>
      cases hbreak : isLineBreak c with
      | true =>
        have hc := h c List.mem_cons_self hbreak
        refine ⟨[] :: line :: lines, by simp, by rw [joinLines_cons_cons, hjoin, hc]; rfl,
          fun l hl => ?_⟩
        rcases List.mem_cons.mp hl with rfl | hl
        · simp [breakless]
        · exact hall l hl
      | false =>
        refine ⟨(c :: line) :: lines, by simp, ?_, fun l hl => ?_⟩
        · rw [joinLines_cons, List.cons_append, ← joinLines_cons, hjoin]
        · rcases List.mem_cons.mp hl with rfl | hl
          · intro d hd
            rcases List.mem_cons.mp hd with rfl | hd
            · exact hbreak
            · exact hall line List.mem_cons_self d hd
          · exact hall l (List.mem_cons_of_mem _ hl)

theorem splitlines_newline {line : Text} (h : breakless line) (t : Text) :
    splitlines (line ++ '\n' :: t) = line :: splitlines t := by
  induction line with
  | nil => simp [splitlines, isLineBreak]
  | cons c line ih =>
    have hc := h c List.mem_cons_self
    have hrest := ih fun d hd => h d (List.mem_cons_of_mem _ hd)
    rw [List.cons_append, splitlines, if_neg (by simp [hc]), hrest]
    intro cs heq _
    rw [heq] at hc
    cases hc

theorem splitlines_breakless {line : Text} (h : breakless line) (hne : line ≠ []) :
    splitlines line = [line] := by
  induction line with
  | nil => exact absurd rfl hne
  | cons c line ih =>
    have hc := h c List.mem_cons_self
    rw [splitlines, if_neg (by simp [hc])]
    · cases line with
      | nil => rfl
      | cons d rest => rw [ih (fun e he => h e (List.mem_cons_of_mem _ he)) (by simp)]
    · intro cs heq _
      rw [heq] at hc
      cases hc

theorem splitlines_joinLines (hne : lines ≠ []) (h : ∀ line ∈ lines, breakless line) (t : Text) :
    splitlines (joinLines lines ++ '\n' :: t) = lines ++ splitlines t := by
  induction lines with
  | nil => exact absurd rfl hne
  | cons line lines ih =>
    have hline := h line List.mem_cons_self
    cases lines with
    | nil => exact splitlines_newline hline t
    | cons next rest =>
      have hrest := ih (by simp) fun l hl => h l (List.mem_cons_of_mem _ hl)
      rw [joinLines_cons_cons, List.append_assoc, List.cons_append, splitlines_newline hline, hrest]
      rfl

theorem splitlinesKeep_newline {line : Text} (h : breakless line) (t : Text) :
    splitlinesKeep (line ++ '\n' :: t) = (line ++ ['\n']) :: splitlinesKeep t := by
  induction line with
  | nil => simp [splitlinesKeep, isLineBreak]
  | cons c line ih =>
    have hc := h c List.mem_cons_self
    have hrest := ih fun d hd => h d (List.mem_cons_of_mem _ hd)
    rw [List.cons_append, splitlinesKeep, if_neg (by simp [hc]), hrest]
    · rfl
    · intro cs heq _
      rw [heq] at hc
      cases hc

theorem splitlinesKeep_breakless {line : Text} (h : breakless line) (hne : line ≠ []) :
    splitlinesKeep line = [line] := by
  induction line with
  | nil => exact absurd rfl hne
  | cons c line ih =>
    have hc := h c List.mem_cons_self
    rw [splitlinesKeep, if_neg (by simp [hc])]
    · cases line with
      | nil => rfl
      | cons d rest => rw [ih (fun e he => h e (List.mem_cons_of_mem _ he)) (by simp)]
    · intro cs heq _
      rw [heq] at hc
      cases hc

/-- The spans of lines with one character between them. -/
def gapSpans : Nat → List Text → List Span
  | _, [] => []
  | start, line :: lines =>
    (start, start + line.length) :: gapSpans (start + line.length + 1) lines

theorem dropWhile_reverse_breakless {line : Text} (h : breakless line) :
    line.reverse.dropWhile (fun c => c == '\r' || c == '\n') = line.reverse := by
  cases hr : line.reverse with
  | nil => rfl
  | cons c cs =>
    have hmem : c ∈ line := List.mem_reverse.mp (hr ▸ List.mem_cons_self)
    have hc := h c hmem
    refine List.dropWhile_cons_of_neg fun heq => ?_
    rcases Bool.or_eq_true_iff.mp heq with hcr | hlf
    · rw [beq_iff_eq.mp hcr] at hc
      cases hc
    · rw [beq_iff_eq.mp hlf] at hc
      cases hc

/-- Where no blank line ends them, the lines stand one character apart. -/
theorem lineSpans_joinLines {start : Nat} (h : ∀ line ∈ lines, breakless line)
    (hlast : lines.getLastD [] ≠ []) :
    lineSpans start (splitlinesKeep (joinLines lines)) = gapSpans start lines := by
  induction lines generalizing start with
  | nil => exact absurd rfl hlast
  | cons line lines ih =>
    have hline := h line List.mem_cons_self
    have hkept := dropWhile_reverse_breakless hline
    cases lines with
    | nil =>
      rw [joinLines, splitlinesKeep_breakless hline (by simpa using hlast), lineSpans, hkept,
        List.length_reverse]
      rfl
    | cons next rest =>
      have hnext := @ih (start + line.length + 1) (fun l hl => h l (List.mem_cons_of_mem _ hl))
        (by simpa using hlast)
      have hstrip : (line ++ ['\n']).reverse.dropWhile (fun c => c == '\r' || c == '\n') =
          line.reverse := by
        rw [List.reverse_append, List.reverse_singleton, List.singleton_append,
          List.dropWhile_cons_of_pos (by simp), hkept]
      rw [joinLines_cons_cons, splitlinesKeep_newline hline, lineSpans, hstrip, List.length_reverse,
        List.length_append, List.length_singleton, ← Nat.add_assoc, hnext]
      rfl

/-! Groups of lines. -/

/-- A text within the room is one piece, a longer one is cut into blocks. -/
def bounded (room : Nat) (t : Text) : List Text :=
  if t.length ≤ room then [t] else blocks room t

/-- From any group on, the spans are grouped as the lines are; the plain loop counts one
character more in a group that was opened where the one before it was full. -/
theorem flatMap_groupSpans {group : Span} {current : List Text} {opened : Bool}
    (hne : current ≠ []) (hgroup : group.1 ≤ group.2) (hlength : group.2 ≤ text.length)
    (htext : textAt text group = joinLines current)
    (hdrop : text.drop group.2 = lines.flatMap ('\n' :: ·)) :
    (group.2 - group.1 ≤ room → fillsUp room opened (some (group.2 - group.1)) lines = false →
      (groupSpans room (some group) (gapSpans (group.2 + 1) lines)).flatMap
          (fun span => bounded room (textAt text span)) =
        splitBody room current (group.2 - group.1 + if opened then 1 else 0) lines) ∧
    (room < group.2 - group.1 → fillsUp room false none lines = false →
      (groupSpans room (some group) (gapSpans (group.2 + 1) lines)).flatMap
          (fun span => bounded room (textAt text span)) =
        blocks room (textAt text group) ++ splitBody room [] 0 lines) := by
  have hsize : (textAt text group).length = group.2 - group.1 := length_textAt hgroup hlength
  induction lines generalizing group current opened with
  | nil =>
    refine ⟨fun hshort _ => ?_, fun hlong _ => ?_⟩
    · rw [gapSpans, groupSpans, List.flatMap_singleton, bounded, hsize, if_pos hshort, htext,
        splitBody, if_neg (by simpa using hne)]
    · rw [gapSpans, groupSpans, List.flatMap_singleton, bounded, hsize,
        if_neg (Nat.not_le.mpr hlong), splitBody]
      simp
  | cons line lines ih =>
    rw [List.flatMap_cons, List.cons_append] at hdrop
    have hnext : text.drop (group.2 + 1) = line ++ lines.flatMap ('\n' :: ·) :=
      drop_of_drop (t := ['\n']) hdrop
    have hline := textAt_of_drop hnext
    have hrest := drop_of_drop hnext
    have htotal := congrArg List.length hdrop
    rw [List.length_drop, List.length_cons, List.length_append] at htotal
    obtain ⟨span, hspan⟩ : ∃ span, span = (group.2 + 1, group.2 + 1 + line.length) := ⟨_, rfl⟩
    rw [← hspan] at hline
    have hfirst : span.1 = group.2 + 1 := by rw [hspan]
    have hlast : span.2 = span.1 + line.length := by rw [hspan]
    have hspans : gapSpans (group.2 + 1) (line :: lines) = span :: gapSpans (span.2 + 1) lines := by
      rw [hspan]
      rfl
    have hbehind : text.drop span.2 = lines.flatMap ('\n' :: ·) := by
      rw [hlast, hfirst]
      exact hrest
    have halone : textAt text span = joinLines [line] := hline
    have hjoined : textAt text (group.1, span.2) = joinLines (current ++ [line]) := by
      have hgap : textAt text (group.2, span.1) = ['\n'] := by
        rw [hfirst]
        exact textAt_of_drop (t := ['\n']) hdrop
      rw [joinLines_concat hne, ← htext, ← hline, ← textAt_append hgroup (by omega),
        ← textAt_append (show group.2 ≤ span.1 by omega) (show span.1 ≤ span.2 by omega), hgap]
      rfl
    have hsize' : (textAt text span).length = span.2 - span.1 :=
      length_textAt (by omega) (by omega)
    have hwidth : span.2 - span.1 = line.length := by omega
    obtain ⟨hshort', hlong'⟩ := @ih span [line] true (by simp) (by omega) (by omega) halone hbehind
      hsize'
    obtain ⟨hshort'', _⟩ := @ih span [line] false (by simp) (by omega) (by omega) halone hbehind
      hsize'
    rw [hwidth] at hshort' hshort'' hlong'
    rw [hspans, groupSpans]
    refine ⟨fun hshort hfills => ?_, fun hlong hfills => ?_⟩
    · have hgiven : bounded room (textAt text group) = [joinLines current] := by
        rw [bounded, hsize, if_pos hshort, htext]
      unfold fillsUp at hfills
      by_cases hlongLine : room < line.length
      · rw [if_pos hlongLine] at hfills
        rw [if_neg (by omega), List.flatMap_cons, hgiven, hlong' hlongLine hfills, hline,
          splitBody_long hlongLine, if_neg (by simpa using hne), if_neg (by simpa using hne),
          List.append_assoc]
      · rw [if_neg hlongLine] at hfills
        by_cases hfits : group.2 - group.1 + 1 + line.length ≤ room
        · rw [if_pos hfits, Bool.or_eq_false_iff] at hfills
          have hcounted : group.2 - group.1 + (if opened then 1 else 0) + (line.length + 1) ≤
              room := by
            cases opened with
            | true =>
              have hne' : group.2 - group.1 + 1 + line.length ≠ room := by simpa using hfills.1
              rw [if_pos rfl]
              omega
            | false =>
              rw [if_neg Bool.false_ne_true]
              omega
          have hwide : span.2 - group.1 = group.2 - group.1 + 1 + line.length := by omega
          obtain ⟨hfitting, _⟩ := @ih (group.1, span.2) (current ++ [line]) opened (by simp)
            (by dsimp only; omega) (by dsimp only; omega) hjoined hbehind
            (length_textAt (by omega) (by omega))
          rw [if_pos (by omega), splitBody_fits (by omega) (Or.inr hcounted)]
          dsimp only at hfitting
          rw [hwide] at hfitting
          rw [hfitting hfits hfills.2, if_neg (show ¬current.isEmpty = true by simpa using hne)]
          congr 1
          omega
        · rw [if_neg hfits] at hfills
          rw [if_neg (by omega), List.flatMap_cons, hgiven, hshort' (by omega) hfills,
            splitBody_full (by omega) hne (by omega)]
          rfl
    · have hgiven : bounded room (textAt text group) = blocks room (textAt text group) := by
        rw [bounded, hsize, if_neg (Nat.not_le.mpr hlong)]
      unfold fillsUp at hfills
      rw [if_neg (by omega), List.flatMap_cons, hgiven]
      congr 1
      by_cases hlongLine : room < line.length
      · rw [if_pos hlongLine] at hfills
        rw [hlong' hlongLine hfills, hline, splitBody_long hlongLine]
        simp
      · rw [if_neg hlongLine] at hfills
        rw [hshort'' (by omega) hfills, splitBody_fits (by omega) (Or.inl rfl)]
        simp

/-- The groups of all lines hold the chunks of the plain loop. -/
theorem flatMap_lineGroups (hne : lines ≠ []) (h : ∀ line ∈ lines, breakless line)
    (hlast : lines.getLastD [] ≠ []) (hfills : fillsUp room false none lines = false) :
    (groupSpans room none (lineSpans 0 (splitlinesKeep (joinLines lines)))).flatMap
        (fun span => bounded room (textAt (joinLines lines) span)) =
      splitBody room [] 0 lines := by
  rw [lineSpans_joinLines h hlast]
  cases lines with
  | nil => exact absurd rfl hne
  | cons first rest =>
    have hjoin := joinLines_cons first rest
    have hstart : (joinLines (first :: rest)).drop 0 = first ++ rest.flatMap ('\n' :: ·) := hjoin
    have htext := textAt_of_drop hstart
    have hdrop := drop_of_drop hstart
    have hlength := congrArg List.length hjoin
    rw [List.length_append] at hlength
    rw [Nat.zero_add] at htext hdrop
    rw [gapSpans, Nat.zero_add, groupSpans]
    obtain ⟨hshort, hlong⟩ := @flatMap_groupSpans _ room rest (0, first.length) [first] false
      (by simp) (Nat.zero_le _) (by dsimp only; omega) htext hdrop
    dsimp only [Nat.sub_zero] at hshort hlong
    unfold fillsUp at hfills
    by_cases hlongLine : room < first.length
    · rw [if_pos hlongLine] at hfills
      rw [hlong hlongLine hfills, htext, splitBody_long hlongLine]
      simp
    · rw [if_neg hlongLine] at hfills
      rw [hshort (by omega) hfills, splitBody_fits (by omega) (Or.inl rfl)]
      simp

/-! A body that is one group. -/

theorem ne_nil_of_mem_splitlinesKeep (t : Text) : ∀ line ∈ splitlinesKeep t, line ≠ [] := by
  induction t using splitlinesKeep.induct with
  | case1 => simp [splitlinesKeep]
  | case2 cs ih => simpa [splitlinesKeep] using ih
  | case3 c cs hcr hbreak ih =>
    rw [splitlinesKeep, if_pos hbreak]
    · simpa using ih
    · exact hcr
  | case4 c cs hcr hbreak hnil ih =>
    rw [splitlinesKeep, if_neg hbreak, hnil]
    · simp
    · exact hcr
  | case5 c cs hcr hbreak line lines hcons ih =>
    rw [splitlinesKeep, if_neg hbreak, hcons]
    · rw [hcons] at ih
      intro l hl
      rcases List.mem_cons.mp hl with rfl | hl
      · exact List.cons_ne_nil c line
      · exact ih l (List.mem_cons_of_mem _ hl)
    · exact hcr

/-- The last line ends where the text does, unless a line feed ends the text. -/
theorem getLastD_lineSpans {start : Nat} {last : Span} (hlines : lines ≠ [])
    (hne : ∀ line ∈ lines, line ≠ [])
    (hlast : ∀ c ∈ lines.flatten.getLast?, c ≠ '\r' ∧ c ≠ '\n') :
    ((lineSpans start lines).getLastD last).2 = start + lines.flatten.length := by
  induction lines generalizing start last with
  | nil => exact absurd rfl hlines
  | cons line lines ih =>
    cases lines with
    | nil =>
      have hkept : line.reverse.dropWhile (fun c => c == '\r' || c == '\n') = line.reverse := by
        cases hr : line.reverse with
        | nil => rfl
        | cons c cs =>
          have hlastChar : [line].flatten.getLast? = some c := by
            rw [List.flatten_singleton, ← List.head?_reverse, hr]
            rfl
          obtain ⟨hcr, hlf⟩ := hlast c hlastChar
          exact List.dropWhile_cons_of_neg (by simp [hcr, hlf])
      rw [lineSpans, hkept, List.length_reverse, List.flatten_singleton]
      rfl
    | cons next rest =>
      have hnext : (next :: rest).flatten ≠ [] := by
        have hne' := hne next (List.mem_cons_of_mem _ List.mem_cons_self)
        simp [hne']
      rw [List.flatten_cons, List.getLast?_append_of_ne_nil _ hnext] at hlast
      rw [lineSpans, List.getLastD_cons, ih (by simp) (fun l hl => hne l (List.mem_cons_of_mem _ hl))
        hlast, List.flatten_cons (l := line), List.length_append, Nat.add_assoc]

theorem groupSpans_fits {group : Span} {spans : List Span}
    (h : ∀ span ∈ spans, span.2 ≤ group.1 + room) :
    groupSpans room (some group) spans = [(group.1, (spans.getLastD group).2)] := by
  induction spans generalizing group with
  | nil => rfl
  | cons span spans ih =>
    have hspan := h span List.mem_cons_self
    rw [groupSpans, if_pos (by omega),
      @ih (group.1, span.2) fun s hs => h s (List.mem_cons_of_mem _ hs), List.getLastD_cons]
    cases spans <;> rfl

/-- Where all of a body fits, it is one group. -/
theorem groupSpans_body {body : Text} (hne : body ≠ [])
    (hlast : ∀ c ∈ body.getLast?, c ≠ '\r' ∧ c ≠ '\n') (hfits : body.length ≤ room) :
    groupSpans room none (lineSpans 0 (splitlinesKeep body)) = [(0, body.length)] := by
  have hflatten := flatten_splitlinesKeep body
  have hcov := covering_lineSpans (Nat.zero_le body.length) hflatten.symm
  have hlines : splitlinesKeep body ≠ [] := fun hnil => by
    rw [hnil] at hflatten
    exact hne hflatten.symm
  have hend := @getLastD_lineSpans _ 0 (0, 0) hlines (ne_nil_of_mem_splitlinesKeep body)
    (by rwa [hflatten])
  rw [hflatten, Nat.zero_add] at hend
  obtain ⟨line, lines, hcons⟩ := List.exists_cons_of_ne_nil hlines
  rw [hcons, lineSpans] at hend hcov ⊢
  rw [List.getLastD_cons] at hend
  rw [groupSpans, groupSpans_fits fun span hspan => by
    have hrange := hcov.mem_range (List.mem_cons_of_mem _ hspan)
    dsimp only
    omega, hend]

end Yuki.Outbound

import Mathlib.Data.List.TakeWhile
import Yuki.Outbound.Coverage

/-! The spans of the mention-aware cuts hold the pieces that the plain cuts make. -/

namespace Yuki.Outbound

open Pieces

variable {text : Text} {a b limit : Nat}

/-- What is sent of a piece: nothing where it is blank. -/
def trimmed (raw : Text) : List Text :=
  if isBlank raw then [] else [stripped raw]

/-- The texts of the spans that are not empty. -/
def textsAt (text : Text) (spans : List Span) : List Text :=
  (spans.filter nonempty).map (textAt text)

theorem textsAt_append (spans more : List Span) :
    textsAt text (spans ++ more) = textsAt text spans ++ textsAt text more := by
  rw [textsAt, List.filter_append, List.map_append]
  rfl

theorem textsAt_map {α : Type} (f : α → Span) (xs : List α) :
    textsAt text (xs.map f) = xs.flatMap fun x => textsAt text [f x] := by
  induction xs with
  | nil => rfl
  | cons x xs ih =>
    rw [List.map_cons, List.flatMap_cons, ← ih]
    exact textsAt_append [f x] (xs.map f)

theorem flatMap_trimmed (pieces : List Text) :
    pieces.flatMap trimmed = (pieces.filter (!isBlank ·)).map stripped := by
  induction pieces with
  | nil => rfl
  | cons piece pieces ih =>
    rw [List.flatMap_cons, ih, trimmed]
    cases h : isBlank piece <;> simp [h]

/-! Trimming. -/

theorem stripped_ne_nil {t : Text} (h : isBlank t = false) : stripped t ≠ [] := by
  intro hnil
  have hsolid := solid_stripped t
  rw [hnil] at hsolid
  exact (isBlank_eq_false_iff t).mp h hsolid.symm

/-- Trimming at the end leaves the white space in front and the trimmed text. -/
theorem take_trimmed {t : Text} (h : isBlank t = false) :
    t.take (t.reverse.dropWhile isSpace).length =
      t.takeWhile isSpace ++ stripped t := by
  have hfront : (t.reverse.dropWhile isSpace).reverse <+: t := by
    have hsuffix := List.reverse_prefix.mpr (List.dropWhile_suffix isSpace (l := t.reverse))
    rwa [List.reverse_reverse] at hsuffix
  have htake := List.prefix_iff_eq_take.mp hfront
  rw [List.length_reverse] at htake
  have hne : ((t.dropWhile isSpace).reverse.dropWhile isSpace).isEmpty = false := by
    have hstripped := stripped_ne_nil h
    rw [stripped] at hstripped
    simpa using hstripped
  have hsplit : t.reverse = (t.dropWhile isSpace).reverse ++ (t.takeWhile isSpace).reverse := by
    rw [← List.reverse_append, List.takeWhile_append_dropWhile]
  rw [← htake, hsplit, List.dropWhile_append, hne, if_neg Bool.false_ne_true, List.reverse_append,
    List.reverse_reverse]
  rfl

theorem textsAt_trimRange (hab : a ≤ b) (hb : b ≤ text.length) :
    textsAt text [trimRange text (a, b)] = trimmed (textAt text (a, b)) := by
  have hraw := length_textAt hab hb
  obtain ⟨raw, hdef⟩ : ∃ raw, raw = textAt text (a, b) := ⟨_, rfl⟩
  have hspan : trimRange text (a, b) = (a + raw.length - (raw.dropWhile isSpace).length,
      b - raw.length + (raw.reverse.dropWhile isSpace).length) := by rw [hdef]; rfl
  rw [hspan, ← hdef, trimmed]
  rw [← hdef] at hraw
  cases hblank : isBlank raw with
  | true =>
    have hfront : raw.dropWhile isSpace = [] :=
      List.dropWhile_eq_nil_iff.mpr (List.all_eq_true.mp hblank)
    have hback : raw.reverse.dropWhile isSpace = [] :=
      List.dropWhile_eq_nil_iff.mpr fun c hc =>
        List.all_eq_true.mp hblank c (List.mem_reverse.mp hc)
    rw [hfront, hback, List.length_nil, textsAt,
      List.filter_cons_of_neg (by simp only [nonempty, decide_eq_true_eq]; omega)]
    rfl
  | false =>
    have hsum := congrArg List.length (List.takeWhile_append_dropWhile (p := isSpace) (l := raw))
    have hkept := congrArg List.length (take_trimmed hblank)
    have hpos := List.length_pos_of_ne_nil (stripped_ne_nil hblank)
    have hle := (List.dropWhile_suffix isSpace (l := raw.reverse)).length_le
    rw [List.length_append] at hsum
    rw [List.length_append, List.length_take] at hkept
    rw [List.length_reverse] at hle
    obtain ⟨start, hstart⟩ : ∃ start, start = a + (raw.takeWhile isSpace).length := ⟨_, rfl⟩
    obtain ⟨stop, hstop⟩ : ∃ stop, stop = start + (stripped raw).length := ⟨_, rfl⟩
    have hends : (a + raw.length - (raw.dropWhile isSpace).length,
        b - raw.length + (raw.reverse.dropWhile isSpace).length) = (start, stop) :=
      Prod.ext (by dsimp only; omega) (by dsimp only; omega)
    have htext : textAt text (start, stop) = stripped raw := by
      rw [← drop_textAt (show a ≤ start by omega) (by omega) (by omega),
        ← take_textAt (show a ≤ stop by omega) (show stop ≤ b by omega) hb, ← hdef,
        show stop - a = (raw.reverse.dropWhile isSpace).length by omega, take_trimmed hblank,
        show start - a = (raw.takeWhile isSpace).length by omega, List.drop_left]
    rw [hends, textsAt, List.filter_cons_of_pos (by simp only [nonempty, decide_eq_true_eq]; omega),
      List.filter_nil, List.map_singleton, htext]
    rfl

/-! Paragraphs, sentences and blocks. -/

/-- The greedy loop over spans gives the pieces of the greedy loop over texts. -/
theorem textsAt_greedySpans {big : Span → List Span} {bigPieces : Text → List Text}
    (hbig : ∀ span : Span, span.1 ≤ span.2 → span.2 ≤ text.length →
      textsAt text (big span) = bigPieces (textAt text span))
    {current : Span} {pieces : List Text} {rest : Text} (hcurrent : current.1 ≤ current.2)
    (hlength : current.2 ≤ text.length) (h : text.drop current.2 = pieces.flatten ++ rest) :
    textsAt text (greedySpans text limit big current (spansFrom current.2 pieces)) =
      greedy limit trimmed bigPieces (textAt text current) pieces := by
  have hflushed : ∀ span : Span, span.1 ≤ span.2 → span.2 ≤ text.length →
      textsAt text (if span.1 < span.2 then [trimRange text span] else []) =
        trimmed (textAt text span) := by
    rintro ⟨s, e⟩ hse he
    split
    · exact textsAt_trimRange hse he
    · rename_i hge
      have heq : s = e := Nat.le_antisymm hse (Nat.not_lt.mp hge)
      rw [heq, textAt_self]
      rfl
  induction pieces generalizing current with
  | nil => exact hflushed current hcurrent hlength
  | cons piece pieces ih =>
    rw [List.flatten_cons, List.append_assoc] at h
    have hpiece := textAt_of_drop h
    have hstop := congrArg List.length h
    rw [List.length_drop, List.length_append] at hstop
    have hsize : (textAt text current).length = current.2 - current.1 :=
      length_textAt hcurrent hlength
    have hnext := drop_of_drop h
    rw [spansFrom, greedySpans, greedy]
    dsimp only
    rw [Nat.add_sub_cancel_left]
    split
    · rw [textsAt_append, textsAt_append, hflushed current hcurrent hlength,
        hbig _ (Nat.le_add_right _ _) (by dsimp only; omega), hpiece,
        @ih (current.2 + piece.length, current.2 + piece.length) (Nat.le_refl _)
          (by dsimp only; omega) hnext, textAt_self]
    · by_cases hfits : current.2 + piece.length - current.1 ≤ limit
      · rw [if_pos hfits, if_pos (show (textAt text current).length + piece.length ≤ limit by omega),
          @ih (current.1, current.2 + piece.length) (by dsimp only; omega)
            (by dsimp only; omega) hnext,
          ← textAt_append hcurrent (Nat.le_add_right current.2 piece.length), hpiece]
      · rw [if_neg hfits,
          if_neg (show ¬(textAt text current).length + piece.length ≤ limit by omega),
          textsAt_append, hflushed current hcurrent hlength, @ih (current.2, current.2 + piece.length) (Nat.le_add_right _ _)
            (by dsimp only; omega) hnext, hpiece]

theorem textsAt_blockSpans (hlimit : 1 ≤ limit) {span : Span} (hspan : span.1 ≤ span.2)
    (hlength : span.2 ≤ text.length) :
    textsAt text ((blockSpans limit span).map (trimRange text)) =
      (blocks limit (textAt text span)).flatMap trimmed := by
  obtain ⟨start, stop⟩ := span
  dsimp only at hspan hlength
  have hsize := length_textAt hspan hlength
  rw [blockSpans, blocks, List.map_map, textsAt_map, List.flatMap_map, hsize]
  refine List.flatMap_congr fun i hi => ?_
  have hmul := (Nat.le_div_iff_mul_le hlimit).mp (List.mem_range.mp hi)
  rw [Nat.succ_mul] at hmul
  have hcut : textAt text (start + i * limit, min (start + i * limit + limit) stop) =
      ((textAt text (start, stop)).drop (i * limit)).take limit := by
    have hdrop := @drop_textAt text start (start + i * limit) stop (by omega) (by omega) hlength
    rw [Nat.add_sub_cancel_left] at hdrop
    rw [hdrop]
    by_cases hlast : start + i * limit + limit ≤ stop
    · have htake := @take_textAt text (start + i * limit) (start + i * limit + limit) stop
        (by omega) hlast hlength
      rw [Nat.add_sub_cancel_left] at htake
      rw [htake, Nat.min_eq_left hlast]
    · rw [Nat.min_eq_right (by omega), List.take_of_length_le]
      rw [length_textAt (by omega) hlength]
      omega
  have htrim := @textsAt_trimRange text (start + i * limit)
    (min (start + i * limit + limit) stop) (by omega) (by omega)
  rw [← hcut]
  exact htrim

theorem textsAt_sentenceSpans (hlimit : 1 ≤ limit) {span : Span} (hspan : span.1 ≤ span.2)
    (hlength : span.2 ≤ text.length) :
    textsAt text (sentenceSpans text limit span) =
      (splitSentence (textAt text span) limit).flatMap trimmed := by
  have hflatten : ((sentences (textAt text span)).filter (!·.isEmpty)).flatten =
      textAt text span := by rw [flatten_filter_nonempty, flatten_sentences]
  have hdrop : text.drop span.1 = ((sentences (textAt text span)).filter (!·.isEmpty)).flatten ++
      text.drop span.2 := by
    have hsplit := List.take_append_drop (span.2 - span.1) (text.drop span.1)
    rw [List.drop_drop, Nat.add_sub_cancel' hspan, ← List.drop_take] at hsplit
    rw [hflatten]
    exact hsplit.symm
  have hgreedy := @textsAt_greedySpans text limit
    (fun sentence => (blockSpans limit sentence).map (trimRange text))
    (fun sentence => (blocks limit sentence).flatMap trimmed)
    (fun sentence h h' => textsAt_blockSpans hlimit h h') (span.1, span.1)
    ((sentences (textAt text span)).filter (!·.isEmpty)) _ (Nat.le_refl _)
    (Nat.le_trans hspan hlength) hdrop
  have hflush : (fun current : Text => (if current.isEmpty then [] else [current]).flatMap
      trimmed) = trimmed := by
    funext current
    cases current with
    | nil => rfl
    | cons c cs => exact List.append_nil _
  rw [splitSentence, flatMap_greedy, hflush]
  rw [textAt_self] at hgreedy
  exact hgreedy

/-- The ranges of a plain text hold the chunks of `split_qq_message`. -/
theorem map_plainRanges (hlimit : 1 ≤ limit) (text : Text) :
    (plainRanges text limit).map (textAt text) = splitQqMessage text limit := by
  have hflatten : ((split paragraphBreak text.length text).filter (!·.isEmpty)).flatten = text := by
    rw [flatten_filter_nonempty, flatten_split]
  have hgreedy := @textsAt_greedySpans text limit (sentenceSpans text limit)
    (fun paragraph => (splitSentence paragraph limit).flatMap trimmed)
    (fun span h h' => textsAt_sentenceSpans hlimit h h') (0, 0)
    ((split paragraphBreak text.length text).filter (!·.isEmpty)) [] (Nat.le_refl _)
    (Nat.zero_le _) (by rw [hflatten, List.append_nil]; rfl)
  have hbig : (fun paragraph => (splitSentence paragraph limit).flatMap trimmed) =
      fun paragraph => ((splitSentence paragraph limit).filter (!isBlank ·)).map stripped :=
    funext fun paragraph => flatMap_trimmed _
  rw [hbig, textAt_self] at hgreedy
  rw [splitQqMessage]
  split
  · rename_i hempty
    rw [List.isEmpty_iff.mp hempty]
    rfl
  · exact hgreedy

/-! Fenced blocks. -/

theorem map_spansFrom {start : Nat} {pieces : List Text} {rest : Text}
    (h : text.drop start = pieces.flatten ++ rest) :
    (spansFrom start pieces).map (textAt text) = pieces := by
  induction pieces generalizing start with
  | nil => rfl
  | cons piece pieces ih =>
    rw [List.flatten_cons, List.append_assoc] at h
    rw [spansFrom, List.map_cons, textAt_of_drop h, ih (drop_of_drop h)]

theorem map_fenceSpans (text : Text) : (fenceSpans text).map (textAt text) = fencedParts text := by
  have hflatten : (fencedParts text).flatten = text := by
    rw [fencedParts, flatten_filter_nonempty, flatten_split]
  exact @map_spansFrom text 0 (fencedParts text) [] (by rw [hflatten, List.append_nil]; rfl)

/-! Chat lines. -/

theorem filter_chatLines_newline (t : Text) :
    (chatLines ('\n' :: t)).filter (!·.isEmpty) = (chatLines t).filter (!·.isEmpty) := by
  by_cases hnext : ∃ cs, t = '\n' :: cs
  · obtain ⟨cs, rfl⟩ := hnext
    rw [chatLines]
  · rw [chatLines, if_pos rfl]
    · rfl
    · exact fun cs _ hcs => hnext ⟨cs, hcs⟩

theorem chatLines_of_newline {t : Text} (h : t = [] ∨ t.head? = some '\n') :
    ∃ lines, chatLines t = [] :: lines := by
  induction t using chatLines.induct with
  | case1 => exact ⟨[], rfl⟩
  | case2 cs ih =>
    rw [chatLines]
    exact ih (Or.inr rfl)
  | case3 cs hrun ih =>
    refine ⟨chatLines cs, ?_⟩
    rw [chatLines, if_pos rfl]
    exact hrun
  | case4 c cs hrun hc ih => simp [hc] at h

theorem chatLines_run {line rest lines : Text} {more : List Text} (h : '\n' ∉ line)
    (hrest : chatLines rest = lines :: more) :
    chatLines (line ++ rest) = (line ++ lines) :: more := by
  induction line with
  | nil => exact hrest
  | cons c line ih =>
    have hc : c ≠ '\n' := fun heq => h (by simp [heq])
    rw [List.cons_append, chatLines, if_neg hc, ih fun hmem => h (List.mem_cons_of_mem _ hmem)]
    · rfl
    · exact fun cs heq _ => hc heq

theorem spans_newline (fuel start : Nat) (t : Text) :
    spans lineRun fuel start ('\n' :: t) = spans lineRun fuel (start + 1) t := by
  cases fuel with
  | zero => rfl
  | succ fuel =>
    have hsearch : search lineRun ('\n' :: t) =
        (search lineRun t).map fun (before, found, after) => ('\n' :: before, found, after) := rfl
    rw [spans, spans, hsearch]
    cases search lineRun t with
    | none => rfl
    | some match_ =>
      obtain ⟨before, found, after⟩ := match_
      simp only [Option.map_some, List.length_cons]
      rw [show start + (before.length + 1) = start + 1 + before.length by omega]

theorem spans_run {c : Char} (fuel start : Nat) (cs : Text) (hc : c ≠ '\n') :
    spans lineRun (fuel + 1) start (c :: cs) =
      (start, start + ((c :: cs).takeWhile (· != '\n')).length) ::
        spans lineRun fuel (start + ((c :: cs).takeWhile (· != '\n')).length)
          ((c :: cs).dropWhile (· != '\n')) := by
  have hrun : lineRun (c :: cs) = some ((c :: cs).takeWhile (· != '\n')).length := by
    rw [lineRun, List.takeWhile_cons_of_pos (by simpa using hc)]
  have htake := List.takeWhile_append_dropWhile (p := (· != '\n')) (l := c :: cs)
  have hfound : (c :: cs).take ((c :: cs).takeWhile (· != '\n')).length =
      (c :: cs).takeWhile (· != '\n') := by
    conv_lhs => rw [← htake]
    exact List.take_left' (by rw [htake])
  have hafter : (c :: cs).drop ((c :: cs).takeWhile (· != '\n')).length =
      (c :: cs).dropWhile (· != '\n') := by
    conv_lhs => rw [← htake]
    exact List.drop_left' (by rw [htake])
  rw [spans, search, hrun]
  dsimp only
  rw [hfound, hafter, List.length_nil, Nat.add_zero]

theorem map_spans_lineRun {fuel start : Nat} {t : Text} (h : text.drop start = t)
    (hfuel : t.length ≤ fuel) :
    (spans lineRun fuel start t).map (textAt text) = (chatLines t).filter (!·.isEmpty) := by
  obtain ⟨size, hsize⟩ : ∃ size, t.length ≤ size := ⟨_, Nat.le_refl _⟩
  induction size generalizing fuel start t with
  | zero =>
    have hnil := List.eq_nil_of_length_eq_zero (Nat.le_zero.mp hsize)
    rw [hnil]
    cases fuel <;> rfl
  | succ size ih =>
    cases t with
    | nil => cases fuel <;> rfl
    | cons c cs =>
      have hnext : text.drop (start + 1) = cs := drop_of_drop (t := [c]) h
      rw [List.length_cons] at hsize hfuel
      by_cases hc : c = '\n'
      · rw [hc, spans_newline, filter_chatLines_newline]
        exact ih hnext (by omega) (by omega)
      · cases fuel with
        | zero => omega
        | succ fuel =>
          have htake := List.takeWhile_append_dropWhile (p := (· != '\n')) (l := c :: cs)
          have hlength := congrArg List.length htake
          rw [List.length_append, List.length_cons] at hlength
          obtain ⟨run, hrun⟩ : ∃ run, run = (c :: cs).takeWhile (· != '\n') := ⟨_, rfl⟩
          obtain ⟨rest, hrest⟩ : ∃ rest, rest = (c :: cs).dropWhile (· != '\n') := ⟨_, rfl⟩
          rw [← hrun, ← hrest] at htake hlength
          have hne : run ≠ [] := by
            rw [hrun, List.takeWhile_cons_of_pos (by simpa using hc)]
            exact List.cons_ne_nil _ _
          have hpos := List.length_pos_of_ne_nil hne
          have hpure : '\n' ∉ run := fun hmem => by
            rw [hrun] at hmem
            simpa using List.mem_takeWhile_imp hmem
          have hhead : rest = [] ∨ rest.head? = some '\n' := by
            cases hr : rest with
            | nil => exact Or.inl rfl
            | cons d ds =>
              have hd := List.head?_dropWhile_not (· != '\n') (c :: cs)
              rw [← hrest, hr] at hd
              exact Or.inr (by simpa using hd)
          obtain ⟨lines, hlines⟩ := chatLines_of_newline hhead
          rw [← htake] at h
          have hafter := drop_of_drop h
          have hline := textAt_of_drop h
          have hkeep : (run :: lines).filter (!·.isEmpty) = run :: lines.filter (!·.isEmpty) :=
            List.filter_cons_of_pos (by simpa using hne)
          rw [spans_run fuel start cs hc, ← hrun, ← hrest, List.map_cons, hline,
            ih hafter (by omega) (by omega), hlines, ← htake, chatLines_run hpure hlines,
            List.append_nil, hkeep]
          rfl

/-- The trimmed chat lines are the stripped lines that are not blank. -/
theorem textsAt_lines (text : Text) :
    textsAt text ((spans lineRun text.length 0 text).map (trimRange text)) =
      ((chatLines text).filter (!isBlank ·)).map stripped := by
  have htrim : ∀ span ∈ spans lineRun text.length 0 text,
      textsAt text [trimRange text span] = trimmed (textAt text span) := by
    intro span hspan
    have hrange := mem_spans hspan
    exact textsAt_trimRange hrange.2.1 (by omega)
  have hlines := @map_spans_lineRun text text.length 0 text rfl (Nat.le_refl _)
  rw [textsAt_map, List.flatMap_congr htrim, ← List.flatMap_map, hlines, flatMap_trimmed,
    List.filter_filter]
  congr 1
  refine List.filter_congr fun line _ => ?_
  cases line <;> simp [isBlank]

/-- A message is cut at the same chat lines. -/
theorem map_chatSpans (text : Text) :
    (chatSpans text).map (textAt text) =
      let sections := ((chatLines text).filter (!isBlank ·)).map stripped
      if structured text || sections.length < 2 then [text] else sections := by
  have hlines := textsAt_lines text
  have hlength := congrArg List.length hlines
  rw [textsAt, List.length_map] at hlength
  unfold chatSpans
  dsimp only
  rw [hlength]
  split
  · rw [List.map_singleton, textAt_all]
  · exact hlines

end Yuki.Outbound

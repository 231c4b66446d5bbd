import Yuki.Outbound.Splitter

/-! What the cuts of a text keep of it, and how long and how many their chunks are. -/

namespace Yuki.Outbound

open Pieces

/-! White space. -/

/-- The characters that are no white space. -/
def solid (t : Text) : Text :=
  t.filter (!isSpace ·)

@[simp] theorem solid_nil : solid [] = [] := rfl

@[simp] theorem solid_append (s t : Text) : solid (s ++ t) = solid s ++ solid t :=
  List.filter_append ..

theorem solid_cons_of_space {c : Char} (h : isSpace c = true) (t : Text) :
    solid (c :: t) = solid t :=
  List.filter_cons_of_neg (by simp [h])

@[simp] theorem solid_newline (t : Text) : solid ('\n' :: t) = solid t :=
  solid_cons_of_space (by decide) t

theorem solid_cons (c : Char) (t : Text) : solid (c :: t) = solid [c] ++ solid t :=
  solid_append [c] t

theorem solid_flatten (ts : List Text) : solid ts.flatten = ts.flatMap solid := by
  induction ts with
  | nil => rfl
  | cons t ts ih => rw [List.flatten_cons, solid_append, ih, List.flatMap_cons]

theorem isBlank_iff (t : Text) : isBlank t = true ↔ solid t = [] := by
  simp [isBlank, solid, List.filter_eq_nil_iff]

theorem isBlank_eq_false_iff (t : Text) : isBlank t = false ↔ solid t ≠ [] := by
  rw [← Bool.not_eq_true, isBlank_iff]

theorem solid_dropWhile (t : Text) : solid (t.dropWhile isSpace) = solid t := by
  induction t with
  | nil => rfl
  | cons c t ih =>
    by_cases hc : isSpace c = true
    · rw [List.dropWhile_cons_of_pos hc, ih, solid_cons_of_space hc]
    · rw [List.dropWhile_cons_of_neg hc]

theorem solid_reverse (t : Text) : solid t.reverse = (solid t).reverse :=
  List.filter_reverse ..

theorem solid_stripped (t : Text) : solid (stripped t) = solid t := by
  rw [stripped, solid_reverse, solid_dropWhile, solid_reverse, solid_dropWhile,
    List.reverse_reverse]

theorem length_stripped_le (t : Text) : (stripped t).length ≤ t.length := by
  have hfront := (List.dropWhile_suffix isSpace (l := t)).length_le
  have hback := (List.dropWhile_suffix isSpace (l := (t.dropWhile isSpace).reverse)).length_le
  rw [List.length_reverse] at hback
  rw [stripped, List.length_reverse]
  omega

theorem isBlank_stripped (t : Text) : isBlank (stripped t) = isBlank t := by
  rw [Bool.eq_iff_iff, isBlank_iff, isBlank_iff, solid_stripped]

theorem isSpace_of_isLineBreak {c : Char} (h : isLineBreak c = true) : isSpace c = true := by
  simp only [isLineBreak, List.contains_cons, List.contains_nil, Bool.or_false, Bool.or_eq_true,
    beq_iff_eq] at h
  simp only [isSpace, Bool.or_eq_true, Bool.and_eq_true, decide_eq_true_eq, beq_iff_eq]
  omega

/-! Lines. -/

theorem solid_joinLines (lines : List Text) : solid (joinLines lines) = solid lines.flatten := by
  induction lines with
  | nil => rfl
  | cons line lines ih =>
    cases lines with
    | nil => simp [joinLines]
    | cons next rest => simp [joinLines, ih]

theorem length_joinLines_cons (line : Text) {lines : List Text} (h : lines ≠ []) :
    (joinLines (line :: lines)).length = line.length + 1 + (joinLines lines).length := by
  cases lines with
  | nil => exact absurd rfl h
  | cons next rest => simp [joinLines]; omega

theorem length_joinLines_concat {lines : List Text} (h : lines ≠ []) (line : Text) :
    (joinLines (lines ++ [line])).length = (joinLines lines).length + 1 + line.length := by
  induction lines with
  | nil => exact absurd rfl h
  | cons first rest ih =>
    cases rest with
    | nil => simp [joinLines]; omega
    | cons next rest =>
      rw [List.cons_append, length_joinLines_cons first (by simp), ih (by simp),
        length_joinLines_cons first (List.cons_ne_nil next rest)]
      omega

theorem length_joinLines_le {lines : List Text} {line : Text} (h : line ∈ lines) :
    line.length ≤ (joinLines lines).length := by
  induction lines with
  | nil => cases h
  | cons first rest ih =>
    cases rest with
    | nil => simp_all [joinLines]
    | cons next rest =>
      rw [length_joinLines_cons _ (by simp)]
      rcases List.mem_cons.mp h with rfl | h
      · omega
      · have hrest := ih h
        omega

theorem length_joinLines_append_le (lines more : List Text) :
    (joinLines lines).length ≤ (joinLines (lines ++ more)).length := by
  induction lines with
  | nil => simp [joinLines]
  | cons line lines ih =>
    cases lines with
    | nil =>
      cases more with
      | nil => simp
      | cons next rest => simp [joinLines]
    | cons next rest =>
      rw [List.cons_append, length_joinLines_cons line (List.cons_ne_nil next rest),
        length_joinLines_cons line (by simp)]
      omega

theorem solid_splitlines (t : Text) : solid (splitlines t).flatten = solid t := by
  induction t using splitlines.induct with
  | case1 => rfl
  | case2 cs ih =>
    rw [splitlines, List.flatten_cons, List.nil_append, ih,
      solid_cons_of_space (by decide : isSpace '\r' = true), solid_newline]
  | case3 c cs hcr hbreak ih =>
    rw [splitlines, if_pos hbreak, List.flatten_cons, List.nil_append, ih,
      solid_cons_of_space (isSpace_of_isLineBreak hbreak)]
    exact hcr
  | case4 c cs hcr hbreak hnil ih =>
    rw [splitlines, if_neg hbreak, hnil]
    · rw [hnil] at ih
      change solid [c] = _
      rw [solid_cons c cs, ← ih]
      exact (List.append_nil _).symm
    · exact hcr
  | case5 c cs hcr hbreak line lines hcons ih =>
    rw [splitlines, if_neg hbreak, hcons]
    · rw [hcons] at ih
      rw [solid_cons c cs, ← ih, ← solid_append]
      rfl
    · exact hcr

theorem length_splitlines_cons (c : Char) (cs : Text) :
    (splitlines cs).length ≤ (splitlines (c :: cs)).length := by
  rw [splitlines.eq_def (c :: cs)]
  split
  · rename_i heq
    cases heq
  · rename_i cs' heq
    cases heq
    simp [splitlines, isLineBreak]
  · rename_i c' cs' hcr heq
    cases heq
    split
    · simp
    · split
      · rename_i hnil
        simp [hnil]
      · rename_i line lines hcons
        simp [hcons]

/-- A line feed ends a line. -/
theorem length_splitlines_newline (s t : Text) :
    (splitlines t).length + 1 ≤ (splitlines (s ++ '\n' :: t)).length := by
  induction s with
  | nil => simp [splitlines, isLineBreak]
  | cons c s ih => exact Nat.le_trans ih (length_splitlines_cons c (s ++ '\n' :: t))

/-- A text that begins with no line break has its first character in its first line. -/
theorem splitlines_cons {c : Char} (h : isLineBreak c = false) (cs : Text) :
    ∃ line lines, splitlines (c :: cs) = (c :: line) :: lines := by
  rw [splitlines.eq_def]
  split
  · rename_i heq
    cases heq
  · rename_i cs' heq
    cases heq
    cases h
  · rename_i c' cs' hcr heq
    cases heq
    rw [if_neg (by simp [h])]
    split
    · exact ⟨[], [], rfl⟩
    · exact ⟨_, _, rfl⟩

/-! Chat lines and sentences. -/

theorem flatten_modifyHead (c : Char) {ts : List Text} (h : ts ≠ []) :
    (ts.modifyHead (c :: ·)).flatten = c :: ts.flatten := by
  cases ts with
  | nil => exact absurd rfl h
  | cons t ts => rfl

theorem chatLines_ne_nil (t : Text) : chatLines t ≠ [] := by
  induction t using chatLines.induct with
  | case1 => simp [chatLines]
  | case2 cs ih => rwa [chatLines]
  | case3 cs hrun ih => simp [chatLines]
  | case4 c cs hrun hc ih =>
    rw [chatLines, if_neg hc]
    · simpa using ih
    · exact hrun

theorem solid_chatLines (t : Text) : solid (chatLines t).flatten = solid t := by
  induction t using chatLines.induct with
  | case1 => rfl
  | case2 cs ih => rw [chatLines, ih, solid_newline ('\n' :: cs)]
  | case3 cs hrun ih =>
    rw [chatLines, if_pos rfl, List.flatten_cons, List.nil_append, ih, solid_newline]
    exact hrun
  | case4 c cs hrun hc ih =>
    rw [chatLines, if_neg hc, flatten_modifyHead c (chatLines_ne_nil cs), solid_cons, ih,
      ← solid_cons]
    exact hrun

theorem sentences_ne_nil (t : Text) : sentences t ≠ [] := by
  induction t with
  | nil => simp [sentences]
  | cons c t ih =>
    unfold sentences
    split
    · simp
    · simpa using ih

theorem flatten_sentences (t : Text) : (sentences t).flatten = t := by
  induction t with
  | nil => rfl
  | cons c t ih =>
    unfold sentences
    split
    · rw [List.flatten_cons, ih]
      rfl
    · rw [flatten_modifyHead c (sentences_ne_nil t), ih]

theorem flatten_filter_nonempty (ts : List Text) :
    (ts.filter (!·.isEmpty)).flatten = ts.flatten := by
  induction ts with
  | nil => rfl
  | cons t ts ih => cases t <;> simp [ih]

theorem solid_filter_nonblank (ts : List Text) :
    solid (ts.filter (!isBlank ·)).flatten = solid ts.flatten := by
  induction ts with
  | nil => rfl
  | cons t ts ih =>
    by_cases ht : isBlank t = true
    · rw [List.filter_cons_of_neg (by simp [ht]), ih, List.flatten_cons, solid_append,
        (isBlank_iff t).mp ht, List.nil_append]
    · rw [List.filter_cons_of_pos (by simpa using ht), List.flatten_cons, List.flatten_cons,
        solid_append, solid_append, ih]

theorem solid_map_stripped (ts : List Text) :
    solid (ts.map stripped).flatten = solid ts.flatten := by
  induction ts with
  | nil => rfl
  | cons t ts ih =>
    rw [List.map_cons, List.flatten_cons, List.flatten_cons, solid_append, solid_append,
      solid_stripped, ih]

/-! `split_qq_message`. -/

variable {limit : Nat}

/-- The greedy pieces keep what their outputs keep. -/
theorem solid_greedy {flush big : Text → List Text}
    (hflush : ∀ c, solid (flush c).flatten = solid c)
    (hbig : ∀ item, solid (big item).flatten = solid item) (items : List Text) :
    solid (greedy limit flush big [] items).flatten = solid items.flatten :=
  filter_greedy hflush hbig [] items

theorem solid_splitSentence (hlimit : 1 ≤ limit) (t : Text) :
    solid (splitSentence t limit).flatten = solid t := by
  unfold splitSentence
  rw [solid_greedy (fun c => by cases c <;> simp) (fun item => by rw [flatten_blocks hlimit]),
    flatten_filter_nonempty, flatten_sentences]

theorem length_splitSentence_le (t : Text) : ∀ chunk ∈ splitSentence t limit,
    chunk.length ≤ limit := by
  refine forall_mem_greedy (fun c hc x hx => ?_)
    (fun item _ _ x hx => length_le_of_mem_blocks hx) (Nat.zero_le _)
  split at hx
  · cases hx
  · exact List.mem_singleton.mp hx ▸ hc

theorem solid_splitQqMessage (hlimit : 1 ≤ limit) (t : Text) :
    solid (splitQqMessage t limit).flatten = solid t := by
  unfold splitQqMessage
  cases ht : t.isEmpty with
  | true =>
    rw [List.isEmpty_iff.mp ht]
    rfl
  | false =>
    rw [if_neg Bool.false_ne_true, solid_greedy (fun c => ?_) (fun item => ?_),
      flatten_filter_nonempty, flatten_split]
    · split
      · rename_i hblank
        exact ((isBlank_iff c).mp hblank).symm
      · simp [solid_stripped]
    · rw [solid_map_stripped, solid_filter_nonblank, solid_splitSentence hlimit]

theorem splitQqMessage_chunk (t : Text) : ∀ chunk ∈ splitQqMessage t limit,
    chunk.length ≤ limit ∧ isBlank chunk = false := by
  unfold splitQqMessage
  split
  · simp
  · refine forall_mem_greedy (fun c hc x hx => ?_) (fun item _ _ x hx => ?_) (Nat.zero_le _)
    · split at hx
      · cases hx
      · rename_i hblank
        rw [List.mem_singleton.mp hx, isBlank_stripped]
        exact ⟨Nat.le_trans (length_stripped_le c) hc, by simpa using hblank⟩
    · obtain ⟨part, hpart, rfl⟩ := List.mem_map.mp hx
      obtain ⟨hmem, hblank⟩ := List.mem_filter.mp hpart
      rw [isBlank_stripped]
      exact ⟨Nat.le_trans (length_stripped_le part) (length_splitSentence_le item part hmem),
        by simpa using hblank⟩

end Yuki.Outbound

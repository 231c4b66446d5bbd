import Yuki.Outbound.Content
import Yuki.Outbound.SpanSplitter

/-! The spans of every cut cover all of the text but white space. -/

namespace Yuki.Outbound

open Pieces

variable {text : Text} {a b c limit : Nat}

theorem textAt_append (hab : a ≤ b) (hbc : b ≤ c) :
    textAt text (a, b) ++ textAt text (b, c) = textAt text (a, c) := by
  unfold textAt
  dsimp only
  rw [List.drop_take, List.drop_take, List.drop_take]
  have hsplit := List.take_add (l := text.drop a) (i := b - a) (j := c - b)
  rw [List.drop_drop, Nat.add_sub_cancel' hab] at hsplit
  rw [← hsplit, show b - a + (c - b) = c - a by omega]

theorem length_textAt (hab : a ≤ b) (hb : b ≤ text.length) :
    (textAt text (a, b)).length = b - a := by
  rw [textAt, List.length_drop, List.length_take]
  dsimp only
  omega

theorem take_textAt (hab : a ≤ b) (hbc : b ≤ c) (hc : c ≤ text.length) :
    (textAt text (a, c)).take (b - a) = textAt text (a, b) := by
  rw [← textAt_append hab hbc]
  exact List.take_left' (length_textAt hab (Nat.le_trans hbc hc))

theorem drop_textAt (hab : a ≤ b) (hbc : b ≤ c) (hc : c ≤ text.length) :
    (textAt text (a, c)).drop (b - a) = textAt text (b, c) := by
  rw [← textAt_append hab hbc]
  exact List.drop_left' (length_textAt hab (Nat.le_trans hbc hc))

theorem textAt_all : textAt text (0, text.length) = text := by
  simp [textAt]

@[simp] theorem textAt_self (a : Nat) : textAt text (a, a) = [] :=
  List.drop_eq_nil_of_le (List.length_take_le a text)

theorem isBlank_append (s t : Text) : isBlank (s ++ t) = (isBlank s && isBlank t) :=
  List.all_append

/-- Spans in order, with only white space outside them. -/
inductive Covering (text : Text) : Nat → Nat → List Span → Prop
  | nil {a b : Nat} (le : a ≤ b) (blank : isBlank (textAt text (a, b)) = true) :
      Covering text a b []
  | cons {a b : Nat} {span : Span} {spans : List Span} (before : a ≤ span.1)
      (within : span.1 ≤ span.2) (blank : isBlank (textAt text (a, span.1)) = true)
      (rest : Covering text span.2 b spans) : Covering text a b (span :: spans)

namespace Covering

variable {spans more : List Span}

theorem le (h : Covering text a b spans) : a ≤ b := by
  induction h with
  | nil le _ => exact le
  | cons before within _ _ ih => omega

theorem content (h : Covering text a b spans) :
    solid (spans.map (textAt text)).flatten = solid (textAt text (a, b)) := by
  induction h with
  | nil _ blank => exact ((isBlank_iff _).mp blank).symm
  | @cons a b span spans before within blank rest ih =>
    rw [← textAt_append (Nat.le_trans before within) rest.le, ← textAt_append before within,
      List.map_cons, List.flatten_cons, solid_append, solid_append, solid_append,
      (isBlank_iff _).mp blank, ih]
    rfl

theorem extend (hca : c ≤ a) (hblank : isBlank (textAt text (c, a)) = true)
    (h : Covering text a b spans) : Covering text c b spans := by
  cases h with
  | nil le blank =>
    refine .nil (Nat.le_trans hca le) ?_
    rw [← textAt_append hca le, isBlank_append, hblank, blank]
    rfl
  | cons before within blank rest =>
    refine .cons (Nat.le_trans hca before) within ?_ rest
    rw [← textAt_append hca before, isBlank_append, hblank, blank]
    rfl

theorem append (h : Covering text a b spans) (h' : Covering text b c more) :
    Covering text a c (spans ++ more) := by
  induction h with
  | nil le blank => exact h'.extend le blank
  | cons before within blank _ ih => exact .cons before within blank (ih h')

theorem refl (text : Text) (a : Nat) : Covering text a a [] :=
  .nil (Nat.le_refl a) (by simp [isBlank])

theorem single (hab : a ≤ b) : Covering text a b [(a, b)] :=
  .cons (Nat.le_refl a) hab (by simp [isBlank]) (refl text b)

end Covering

/-- Pieces that follow each other leave nothing out. -/
theorem covering_spansFrom (start : Nat) (pieces : List Text) :
    Covering text start (start + pieces.flatten.length) (spansFrom start pieces) := by
  induction pieces generalizing start with
  | nil => exact .refl text start
  | cons piece pieces ih =>
    have hfirst : Covering text start (start + piece.length) [(start, start + piece.length)] :=
      .single (Nat.le_add_right start piece.length)
    have hrest := hfirst.append
      (ih (start + piece.length))
    rwa [Nat.add_assoc, ← List.length_append] at hrest

/-! Trimming. -/

theorem all_leading (p : Char → Bool) (raw : Text) :
    (raw.take (raw.length - (raw.dropWhile p).length)).all p = true := by
  induction raw with
  | nil => rfl
  | cons c raw ih =>
    have hle := (List.dropWhile_suffix p (l := raw)).length_le
    by_cases hc : p c = true
    · rw [List.dropWhile_cons_of_pos hc, List.length_cons, Nat.succ_sub hle, List.take_succ_cons]
      simpa [hc] using ih
    · rw [List.dropWhile_cons_of_neg hc, Nat.sub_self]
      rfl

theorem all_trailing (p : Char → Bool) (raw : Text) :
    (raw.drop (raw.reverse.dropWhile p).length).all p = true := by
  have hleading := all_leading p raw.reverse
  rw [List.length_reverse, List.take_reverse, List.all_reverse] at hleading
  have hle := (List.dropWhile_suffix p (l := raw.reverse)).length_le
  rw [List.length_reverse] at hle
  rwa [Nat.sub_sub_self hle] at hleading

theorem covering_trim (hab : a ≤ b) (hb : b ≤ text.length) :
    Covering text a b ([trimRange text (a, b)].filter nonempty) := by
  have hraw := length_textAt hab hb
  have hfront := (List.dropWhile_suffix isSpace (l := textAt text (a, b))).length_le
  have hback := (List.dropWhile_suffix isSpace (l := (textAt text (a, b)).reverse)).length_le
  have hleading : isBlank _ = true := all_leading isSpace (textAt text (a, b))
  have htrailing : isBlank _ = true := all_trailing isSpace (textAt text (a, b))
  rw [List.length_reverse] at hback
  obtain ⟨start, hstart⟩ : ∃ start, start = a + (textAt text (a, b)).length -
      ((textAt text (a, b)).dropWhile isSpace).length := ⟨_, rfl⟩
  obtain ⟨stop, hstop⟩ : ∃ stop, stop = b - (textAt text (a, b)).length +
      ((textAt text (a, b)).reverse.dropWhile isSpace).length := ⟨_, rfl⟩
  have hspan : trimRange text (a, b) = (start, stop) := by rw [hstart, hstop]; rfl
  rw [show (textAt text (a, b)).length - ((textAt text (a, b)).dropWhile isSpace).length =
    start - a by omega, take_textAt (by omega) (by omega) hb] at hleading
  rw [show ((textAt text (a, b)).reverse.dropWhile isSpace).length = stop - a by omega,
    drop_textAt (by omega) (by omega) hb] at htrailing
  rw [hspan]
  by_cases hlt : start < stop
  · rw [List.filter_cons_of_pos (by simpa [nonempty] using hlt), List.filter_nil]
    exact .cons (by dsimp only; omega) (Nat.le_of_lt hlt) hleading
      (.nil (by dsimp only; omega) htrailing)
  · rw [List.filter_cons_of_neg (by simpa [nonempty] using hlt), List.filter_nil]
    have hover := Nat.not_lt.mp hlt
    rw [← textAt_append hover (by omega), isBlank_append, Bool.and_eq_true] at htrailing
    refine .nil hab ?_
    rw [← textAt_append (b := start) (by omega) (by omega), isBlank_append, hleading, htrailing.2]
    rfl

/-! Paragraphs, sentences and blocks. -/

theorem covering_flushed {current : Span} (hcurrent : current.1 ≤ current.2)
    (hlength : current.2 ≤ text.length) :
    Covering text current.1 current.2
      ((if current.1 < current.2 then [trimRange text current] else []).filter nonempty) := by
  split
  · exact covering_trim hcurrent hlength
  · have heq : current.1 = current.2 := by omega
    rw [heq]
    exact .refl text current.2

theorem covering_greedySpans {big : Span → List Span}
    (hbig : ∀ span : Span, span.1 ≤ span.2 → span.2 ≤ text.length →
      Covering text span.1 span.2 ((big span).filter nonempty))
    {current : Span} {pieces : List Text} (hcurrent : current.1 ≤ current.2)
    (hend : current.2 + pieces.flatten.length ≤ text.length) :
    Covering text current.1 (current.2 + pieces.flatten.length)
      ((greedySpans text limit big current (spansFrom current.2 pieces)).filter nonempty) := by
  induction pieces generalizing current with
  | nil => exact covering_flushed hcurrent hend
  | cons piece pieces ih =>
    rw [List.flatten_cons, List.length_append, ← Nat.add_assoc] at hend ⊢
    have hstop : current.2 + piece.length ≤ text.length := by omega
    have hflushed := covering_flushed hcurrent (show current.2 ≤ text.length by omega)
    rw [spansFrom, greedySpans]
    dsimp only
    split
    · rw [List.filter_append, List.filter_append]
      exact (hflushed.append (hbig (current.2, current.2 + piece.length) (by simp) hstop)).append
        (@ih (current.2 + piece.length, current.2 + piece.length) (Nat.le_refl _) hend)
    · split
      · exact @ih (current.1, current.2 + piece.length) (by dsimp only; omega) hend
      · rw [List.filter_append]
        exact hflushed.append (@ih (current.2, current.2 + piece.length) (by simp) hend)

theorem covering_blockSpans (hlimit : 1 ≤ limit) {span : Span} (hspan : span.1 ≤ span.2)
    (hlength : span.2 ≤ text.length) :
    Covering text span.1 span.2
      (((blockSpans limit span).map (trimRange text)).filter nonempty) := by
  have hblocks : ∀ count, (∀ k, k < count → span.1 + k * limit ≤ span.2) →
      Covering text span.1 (min (span.1 + count * limit) span.2)
        ((((List.range count).map fun i =>
          (span.1 + i * limit, min (span.1 + i * limit + limit) span.2)).map
            (trimRange text)).filter nonempty) := by
    intro count
    induction count with
    | zero =>
      intro _
      rw [Nat.zero_mul, Nat.add_zero, Nat.min_eq_left hspan]
      exact .refl text span.1
    | succ count ih =>
      intro hk
      have hcount := hk count (Nat.lt_succ_self count)
      have hbefore := ih fun k hlt => hk k (Nat.lt_succ_of_lt hlt)
      rw [Nat.min_eq_left hcount] at hbefore
      rw [List.range_succ, List.map_append, List.map_append, List.filter_append, Nat.succ_mul,
        ← Nat.add_assoc]
      exact hbefore.append (covering_trim (by omega) (by omega))
  have hlast : span.2 ≤ span.1 + (span.2 - span.1 + limit - 1) / limit * limit := by
    have hdiv := Nat.lt_div_mul_add (a := span.2 - span.1 + limit - 1) hlimit
    omega
  have hall := hblocks ((span.2 - span.1 + limit - 1) / limit) fun k hk => by
    have hmul := (Nat.le_div_iff_mul_le hlimit).mp hk
    rw [Nat.succ_mul] at hmul
    omega
  rwa [Nat.min_eq_right hlast] at hall

theorem covering_sentenceSpans (hlimit : 1 ≤ limit) {span : Span} (hspan : span.1 ≤ span.2)
    (hlength : span.2 ≤ text.length) :
    Covering text span.1 span.2 ((sentenceSpans text limit span).filter nonempty) := by
  have hflatten : ((sentences (textAt text span)).filter (!·.isEmpty)).flatten.length =
      span.2 - span.1 := by
    rw [flatten_filter_nonempty, flatten_sentences]
    exact length_textAt hspan hlength
  have hgreedy := @covering_greedySpans text limit
    (fun sentence => (blockSpans limit sentence).map (trimRange text))
    (fun sentence h h' => covering_blockSpans hlimit h h') (span.1, span.1)
    ((sentences (textAt text span)).filter (!·.isEmpty)) (Nat.le_refl _)
    (by rw [hflatten]; dsimp only; omega)
  rwa [hflatten, Nat.add_sub_cancel' hspan] at hgreedy

theorem covering_plainRanges (hlimit : 1 ≤ limit) (text : Text) :
    Covering text 0 text.length (plainRanges text limit) := by
  have hflatten : ((split paragraphBreak text.length text).filter (!·.isEmpty)).flatten = text := by
    rw [flatten_filter_nonempty, flatten_split]
  have hgreedy := @covering_greedySpans text limit (sentenceSpans text limit)
    (fun _ h h' => covering_sentenceSpans hlimit h h') (0, 0)
    ((split paragraphBreak text.length text).filter (!·.isEmpty)) (Nat.le_refl _)
    (by rw [hflatten]; simp)
  rwa [hflatten, Nat.zero_add] at hgreedy

theorem covering_fenceSpans (text : Text) : Covering text 0 text.length (fenceSpans text) := by
  have hpieces := @covering_spansFrom text 0 (fencedParts text)
  rwa [fencedParts, flatten_filter_nonempty, flatten_split, Nat.zero_add] at hpieces

/-! Code lines. -/

theorem flatten_splitlinesKeep (t : Text) : (splitlinesKeep t).flatten = t := by
  induction t using splitlinesKeep.induct with
  | case1 => rfl
  | case2 cs ih => rw [splitlinesKeep, List.flatten_cons, ih]; rfl
  | case3 c cs hcr hbreak ih =>
    rw [splitlinesKeep, if_pos hbreak, List.flatten_cons, ih]
    · rfl
    · exact hcr
  | case4 c cs hcr hbreak hnil ih =>
    rw [splitlinesKeep, if_neg hbreak, hnil]
    · rw [hnil] at ih
      exact congrArg (c :: ·) ih
    · exact hcr
  | case5 c cs hcr hbreak line lines hcons ih =>
    rw [splitlinesKeep, if_neg hbreak, hcons]
    · rw [hcons] at ih
      exact congrArg (c :: ·) ih
    · exact hcr

theorem isBlank_of_all {p : Char → Bool} (hp : ∀ c, p c = true → isSpace c = true) {t : Text}
    (h : t.all p = true) : isBlank t = true :=
  List.all_eq_true.mpr fun c hc => hp c (List.all_eq_true.mp h c hc)

theorem textAt_of_drop {start : Nat} {t rest : Text} (h : text.drop start = t ++ rest) :
    textAt text (start, start + t.length) = t := by
  unfold textAt
  dsimp only
  rw [List.drop_take, Nat.add_sub_cancel_left, h]
  exact List.take_left

theorem length_of_drop {start : Nat} {t : Text} (hstart : start ≤ text.length)
    (h : text.drop start = t) : start + t.length = text.length := by
  have hlength := congrArg List.length h
  rw [List.length_drop] at hlength
  omega

theorem drop_of_drop {start : Nat} {t rest : Text} (h : text.drop start = t ++ rest) :
    text.drop (start + t.length) = rest := by
  rw [← List.drop_drop, h]
  exact List.drop_left

theorem covering_lineSpans {start : Nat} {lines : List Text} (hstart : start ≤ text.length)
    (h : text.drop start = lines.flatten) :
    Covering text start text.length (lineSpans start lines) := by
  induction lines generalizing start with
  | nil =>
    have hend := length_of_drop hstart h
    rw [List.flatten_nil, List.length_nil, Nat.add_zero] at hend
    rw [hend]
    exact .refl text text.length
  | cons line lines ih =>
    rw [List.flatten_cons] at h
    have hline := textAt_of_drop h
    have hend := length_of_drop hstart h
    rw [List.length_append] at hend
    have hnext : start + line.length ≤ text.length := by omega
    have hrest := ih hnext (drop_of_drop h)
    have hblank := isBlank_of_all (fun c hc => ?_)
      (all_trailing (fun c => c == '\r' || c == '\n') line)
    · have hle :=
        (List.dropWhile_suffix (fun c => c == '\r' || c == '\n') (l := line.reverse)).length_le
      rw [List.length_reverse] at hle
      rw [lineSpans]
      generalize (line.reverse.dropWhile fun c => c == '\r' || c == '\n').length = kept at *
      rw [← hline, show kept = start + kept - start by omega,
        drop_textAt (by omega) (by omega) hnext] at hblank
      exact .cons (Nat.le_refl _) (by simp) (by simp [isBlank])
        (hrest.extend (by dsimp only; omega) hblank)
    · rcases Bool.or_eq_true_iff.mp hc with hc | hc
      · rw [beq_iff_eq.mp hc]
        decide
      · rw [beq_iff_eq.mp hc]
        decide

theorem covering_groupSpans {room : Nat} {group : Span} {lines : List Span} (hbefore : a ≤ group.1)
    (hgroup : group.1 ≤ group.2) (hblank : isBlank (textAt text (a, group.1)) = true)
    (h : Covering text group.2 b lines) :
    Covering text a b (groupSpans room (some group) lines) := by
  induction lines generalizing a group with
  | nil => exact .cons hbefore hgroup hblank h
  | cons line lines ih =>
    cases h with
    | cons before within blank rest =>
      unfold groupSpans
      split
      · exact @ih a (group.1, line.2) hbefore (by dsimp only; omega) hblank rest
      · exact .cons hbefore hgroup hblank (ih before within blank rest)

theorem covering_codeGroups (room : Nat) (body : TransportMessage) :
    Covering body.text 0 body.text.length (codeGroups room body) := by
  have hlines := covering_lineSpans (Nat.zero_le body.text.length)
    (flatten_splitlinesKeep body.text).symm
  unfold codeGroups
  cases hl : lineSpans 0 (splitlinesKeep body.text) with
  | nil =>
    rw [hl] at hlines
    exact hlines
  | cons line lines =>
    rw [hl] at hlines
    cases hlines with
    | cons before within blank rest => exact covering_groupSpans before within blank rest

/-! Chat lines. -/

theorem lineRun_none {c : Char} {cs : Text} (h : lineRun (c :: cs) = none) : c = '\n' := by
  by_contra hc
  unfold lineRun at h
  rw [List.takeWhile_cons_of_pos (by simpa using hc)] at h
  cases h

theorem search_lineRun_none {t : Text} (h : search lineRun t = none) : isBlank t = true := by
  induction t with
  | nil => rfl
  | cons c t ih =>
    unfold search at h
    cases hl : lineRun (c :: t) with
    | some n =>
      rw [hl] at h
      cases h
    | none =>
      rw [hl] at h
      have hrest := ih (Option.map_eq_none_iff.mp h)
      rw [lineRun_none hl, isBlank, List.all_cons, Bool.and_eq_true]
      exact ⟨by decide, hrest⟩

theorem search_lineRun_some {t before found after : Text}
    (h : search lineRun t = some (before, found, after)) : isBlank before = true ∧ found ≠ [] := by
  induction t generalizing before with
  | nil => cases h
  | cons c t ih =>
    unfold search at h
    cases hl : lineRun (c :: t) with
    | some n =>
      rw [hl] at h
      cases h
      refine ⟨rfl, fun hnil => ?_⟩
      have hpos : n ≠ 0 := by
        intro hn
        unfold lineRun at hl
        split at hl
        · cases hl
        · rename_i hne
          cases hl
          exact hne (List.eq_nil_of_length_eq_zero hn)
      cases n with
      | zero => exact hpos rfl
      | succ n => cases hnil
    | none =>
      rw [hl] at h
      obtain ⟨⟨before', found', after'⟩, hs, heq⟩ := Option.map_eq_some_iff.mp h
      cases heq
      obtain ⟨hblank, hfound⟩ := ih hs
      rw [lineRun_none hl, isBlank, List.all_cons, Bool.and_eq_true]
      exact ⟨⟨by decide, hblank⟩, hfound⟩

theorem covering_lines {fuel start : Nat} {t : Text} (hstart : start ≤ text.length)
    (h : text.drop start = t) (hfuel : t.length ≤ fuel) :
    Covering text start text.length
      (((spans lineRun fuel start t).map (trimRange text)).filter nonempty) := by
  induction fuel generalizing start t with
  | zero =>
    have hnil := List.eq_nil_of_length_eq_zero (Nat.le_zero.mp hfuel)
    have hend := length_of_drop hstart h
    rw [hnil, List.length_nil, Nat.add_zero] at hend
    rw [hend]
    exact .refl text text.length
  | succ fuel ih =>
    have hend := length_of_drop hstart h
    unfold spans
    cases hs : search lineRun t with
    | none =>
      have hall := @textAt_of_drop text start t [] (h.trans (List.append_nil t).symm)
      rw [hend] at hall
      exact .nil hstart (hall ▸ search_lineRun_none hs)
    | some match_ =>
      obtain ⟨before, found, after⟩ := match_
      obtain ⟨hblank, hfound⟩ := search_lineRun_some hs
      have happend := search_append hs
      have hlength := congrArg List.length happend
      rw [List.length_append, List.length_append] at hlength
      have hpos := List.length_pos_of_ne_nil hfound
      rw [← happend, List.append_assoc] at h
      have hnext := drop_of_drop h
      have hgap := textAt_of_drop h
      have hrest := @ih (start + before.length + found.length) after (by omega)
        (drop_of_drop hnext) (by omega)
      rw [← hgap] at hblank
      rw [List.map_cons]
      have hfirst := @covering_trim text (start + before.length)
        (start + before.length + found.length) (by omega) (by omega)
      have hboth := (hfirst.append hrest).extend (by omega) hblank
      rwa [← List.filter_append] at hboth

theorem covering_chatSpans (text : Text) : Covering text 0 text.length (chatSpans text) := by
  unfold chatSpans
  dsimp only
  split
  · exact .single (Nat.zero_le _)
  · exact covering_lines (Nat.zero_le _) rfl (Nat.le_refl _)

end Yuki.Outbound

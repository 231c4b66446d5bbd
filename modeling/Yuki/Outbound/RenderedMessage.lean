import Yuki.Outbound.Carried
import Yuki.Outbound.Rendered

/-! Rendering with mentions keeps the content of a message and its mentions, where every cut
keeps each mention within the spans that it leaves. -/

namespace Yuki.Outbound

open Pieces

namespace Run

/-- The text of the parts, with the repeated fence lines of a code block removed. -/
def content (run : Run) : Text :=
  let opening := codeOpening run.source
  let closing := codeClosing run.source
  if run.code && !run.parts.isEmpty then
    opening ++ (run.parts.flatMap fun part =>
      (part.text.drop opening.length).take
        (part.text.length - opening.length - closing.length)) ++ closing
  else run.parts.flatMap (·.text)

end Run

/-- The parts hold the content of the message and each of its mentions once, in order. -/
structure Delivers (message : TransportMessage) (reply : ReplyConfig) (runs : List Run)
    (parts : List TransportMessage) : Prop where
  count : 1 ≤ parts.length ∧ parts.length ≤ reply.hardMaxMessages
  carries : Carries message parts
  content : solid (runs.flatMap Run.content) = solid message.text

/-- The sections of messages that are too long, at their fenced blocks. -/
def longSections (message : TransportMessage) (reply : ReplyConfig) : List TransportMessage :=
  (chatSections message reply).flatMap fun sec =>
    if sec.text.length ≤ reply.maxQqMessageChars then []
    else sourceSections sec (fenceSpans sec.text)

/-- The lines of a code block hold its mentions, and its room each of them. -/
def KeepsCode (limit : Nat) (block : TransportMessage) : Prop :=
  ∀ body ∈ codeBodies block, body.text ≠ [] ∧
    Housed body.mentions
      (atomicSpans body.mentions none (codeGroups (codeRoom block limit) body)) ∧
    ∀ m ∈ body.mentions, m.textEnd - m.textStart ≤ codeRoom block limit

def KeepsPlain (limit : Nat) (sec : TransportMessage) : Prop :=
  Housed sec.mentions (atomicSpans sec.mentions none (plainRanges sec.text limit))

instance (limit : Nat) (block : TransportMessage) : Decidable (KeepsCode limit block) :=
  inferInstanceAs (Decidable (∀ body ∈ codeBodies block, _ ∧ _ ∧ _))

instance (limit : Nat) (sec : TransportMessage) : Decidable (KeepsPlain limit sec) :=
  inferInstanceAs (Decidable (Housed _ _))

/-- No cut leaves a part of a mention outside its spans. -/
structure Keeps (message : TransportMessage) (reply : ReplyConfig) : Prop where
  lines : Housed message.mentions (chatSpans message.text)
  codes : ∀ sec ∈ longSections message reply, codeSection sec = true →
    KeepsCode reply.maxQqMessageChars sec
  plains : ∀ sec ∈ longSections message reply, codeSection sec = false →
    KeepsPlain reply.maxQqMessageChars sec

variable {message sec block : TransportMessage} {parts : List TransportMessage} {limit : Nat}
  {reply : ReplyConfig}

/-! Short mentions. -/

/-- No mention is longer than the limit. -/
def Short (limit : Nat) (message : TransportMessage) : Prop :=
  ∀ quote ∈ quoted message, quote.2.length ≤ limit

theorem Short.of_carries (h : Short limit message) (hparts : Carries message parts)
    (hsec : sec ∈ parts) : Short limit sec := fun quote hquote =>
  h quote (hparts.quotes ▸ List.mem_flatMap.mpr ⟨sec, hsec, hquote⟩)

theorem Short.lengths (h : Short limit sec) (hms : Placed 0 sec.text.length sec.mentions) :
    ∀ m ∈ sec.mentions, m.textEnd - m.textStart ≤ limit := by
  intro m hm
  obtain ⟨hstart, hlt, hstop⟩ := hms.mem_range hm
  have hle := h _ (List.mem_map_of_mem hm)
  have hlength := length_slice hstart (Int.le_of_lt hlt) hstop
  dsimp only at hle
  omega

/-! Parts that are bounded. -/

/-- Sections that are divided further. -/
theorem exists_bounded (hlimit : 1 ≤ limit) {sections : List TransportMessage}
    (hplaced : ∀ part ∈ sections, Placed 0 part.text.length part.mentions)
    (hshort : ∀ part ∈ sections, ∀ m ∈ part.mentions, m.textEnd - m.textStart ≤ limit) :
    ∃ bounded, sections.mapM (splitTransport limit) = .ok bounded ∧
      List.Forall₂ Carries sections bounded ∧
      bounded.flatten.flatMap (·.text) = sections.flatMap (·.text) ∧
      (sections ≠ [] → bounded.flatten ≠ []) := by
  obtain ⟨bounded, hrun, hall⟩ := exists_mapM_ok fun part hpart =>
    splitTransport_carries hlimit (hplaced part hpart) (hshort part hpart)
  refine ⟨bounded, hrun, hall.imp fun _ _ h => h.1, ?_, ?_⟩
  · clear hrun hplaced hshort
    induction hall with
    | nil => rfl
    | cons hfirst _ ih =>
      rw [List.flatten_cons, List.flatMap_append, List.flatMap_cons, hfirst.2.1, ih]
  · intro hne
    cases hall with
    | nil => exact absurd rfl hne
    | cons hfirst _ =>
      rw [List.flatten_cons]
      exact fun hnil => hfirst.2.2 (List.append_eq_nil_iff.mp hnil).1

/-! Code blocks. -/

/-- The fence of a code block. -/
theorem exists_fence {text : Text} (h : isCode text = true) :
    ∃ mark, (mark = backticks ∨ mark = tildes) ∧ mark.isPrefixOf text = true ∧
      ('\n' :: mark).isSuffixOf text = true ∧
      (text.takeWhile (· != '\n')).length + 1 + mark.length + 1 ≤ text.length := by
  simp only [isCode, List.any_cons, List.any_nil, Bool.or_false, Bool.or_eq_true,
    Bool.and_eq_true, decide_eq_true_eq] at h
  rcases h with ⟨⟨hfront, hsuffix⟩, hlength⟩ | ⟨⟨hfront, hsuffix⟩, hlength⟩
  · exact ⟨backticks, Or.inl rfl, hfront, hsuffix, hlength⟩
  · exact ⟨tildes, Or.inr rfl, hfront, hsuffix, hlength⟩

theorem isCode_bounds {text : Text} (h : isCode text = true) :
    openingEnd text ≤ closingStart text ∧ closingStart text ≤ text.length := by
  obtain ⟨mark, hkind, _, hsuffix, hlength⟩ := exists_fence h
  obtain ⟨before, rfl⟩ := List.isSuffixOf_iff_suffix.mp hsuffix
  have hlast : ((before ++ '\n' :: mark).reverse.takeWhile (· != '\n')).length = mark.length := by
    rw [List.reverse_append, List.reverse_cons, List.append_assoc, List.singleton_append]
    rcases hkind with rfl | rfl <;> rfl
  unfold openingEnd closingStart
  rw [hlast]
  omega

/-- The body of a code block, with the mentions that all stand in it. -/
def codeBody (block : TransportMessage) : TransportMessage :=
  { block with
    text := textAt block.text (openingEnd block.text, closingStart block.text)
    mentions := block.mentions.map (·.shift (-openingEnd block.text))
    replyReference := none }

theorem codeSection_range (h : codeSection block = true) :
    isCode block.text = true ∧ ∀ m ∈ block.mentions,
      (openingEnd block.text : Int) ≤ m.textStart ∧ m.textEnd ≤ closingStart block.text := by
  simpa [codeSection, startsBefore, endsBy] using h

theorem codeBodies_eq (h : codeSection block = true)
    (hms : Placed 0 block.text.length block.mentions) : codeBodies block = [codeBody block] := by
  obtain ⟨_, hrange⟩ := codeSection_range h
  have hends : block.mentions.dropWhile (endsBy (closingStart block.text)) = [] :=
    List.dropWhile_eq_nil_iff.mpr fun m hm => by simpa [endsBy] using (hrange m hm).2
  have hstarts : block.mentions.takeWhile (startsBefore (closingStart block.text)) =
      block.mentions := by
    refine List.takeWhile_eq_self_iff.mpr fun m hm => ?_
    have hlt := (hms.mem_range hm).2.1
    have hstop := (hrange m hm).2
    simp only [startsBefore, decide_eq_true_eq]
    omega
  unfold codeBodies sourceSections atomicSpans
  dsimp only [Option.getD_none]
  rw [hends]
  dsimp only [atomicSpans, sectionsAt]
  rw [hstarts]
  rfl

theorem codeBody_spec (h : codeSection block = true)
    (hms : Placed 0 block.text.length block.mentions) :
    Placed 0 (codeBody block).text.length (codeBody block).mentions ∧
      quoted (codeBody block) = quoted block ∧
      codeOpening block ++ ((codeBody block).text ++ codeClosing block) = block.text := by
  obtain ⟨hcode, hrange⟩ := codeSection_range h
  obtain ⟨hopening, hclosing⟩ := isCode_bounds hcode
  have hin : Placed (openingEnd block.text) (closingStart block.text) block.mentions :=
    hms.within (by omega) hrange
  have hlength : (codeBody block).text.length =
      closingStart block.text - openingEnd block.text := length_textAt hopening hclosing
  refine ⟨(hin.shift (-openingEnd block.text)).mono (by omega) (by omega), ?_, ?_⟩
  · exact @quoted_section block (openingEnd block.text, closingStart block.text) block.mentions
      hclosing hin
  · have hfirst : codeOpening block = textAt block.text (0, openingEnd block.text) := by
      rw [codeOpening, textAt, List.drop_zero]
    have hlast : codeClosing block =
        textAt block.text (closingStart block.text, block.text.length) := by
      rw [codeClosing, textAt, List.take_length]
    rw [hfirst, hlast]
    change textAt block.text (0, openingEnd block.text) ++
      (textAt block.text (openingEnd block.text, closingStart block.text) ++ _) = block.text
    rw [textAt_append hopening hclosing, textAt_append (Nat.zero_le _) (by omega), textAt_all]

theorem content_enclosed (block : TransportMessage) {inners : List TransportMessage}
    (hne : inners ≠ []) :
    (Run.mk block true (inners.map (enclosed (codeOpening block) (codeClosing block)))).content =
      codeOpening block ++ inners.flatMap (·.text) ++ codeClosing block := by
  have hinner : ∀ inner : TransportMessage,
      ((enclosed (codeOpening block) (codeClosing block) inner).text.drop
          (codeOpening block).length).take
        ((enclosed (codeOpening block) (codeClosing block) inner).text.length -
          (codeOpening block).length - (codeClosing block).length) = inner.text := by
    intro inner
    simp only [enclosed, List.append_assoc, List.drop_left, List.length_append]
    rw [show (codeOpening block).length + (inner.text.length + (codeClosing block).length) -
      (codeOpening block).length - (codeClosing block).length = inner.text.length by omega]
    exact List.take_left
  have hempty :
      (inners.map (enclosed (codeOpening block) (codeClosing block))).isEmpty = false := by
    simpa using hne
  unfold Run.content
  dsimp only
  rw [hempty, if_pos (by rfl), List.flatMap_map]
  congr 2
  exact List.flatMap_congr fun inner _ => hinner inner

theorem groupSpans_ne_nil (room : Nat) (group : Span) (lines : List Span) :
    groupSpans room (some group) lines ≠ [] := by
  induction lines generalizing group with
  | nil => simp [groupSpans]
  | cons line lines ih =>
    unfold groupSpans
    split
    · exact ih (group.1, line.2)
    · simp

/-- The body of a block is divided where it is not empty. -/
theorem codeSections_ne_nil {body : TransportMessage} (room : Nat) (hne : body.text ≠ [])
    (hhoused : Housed body.mentions (atomicSpans body.mentions none (codeGroups room body))) :
    sourceSections body (codeGroups room body) ≠ [] := by
  obtain ⟨group, groups, hgroups⟩ : ∃ group groups, codeGroups room body = group :: groups := by
    unfold codeGroups
    cases hl : splitlinesKeep body.text with
    | nil =>
      have hflatten := flatten_splitlinesKeep body.text
      rw [hl] at hflatten
      exact absurd hflatten.symm hne
    | cons line lines => exact List.exists_cons_of_ne_nil (groupSpans_ne_nil _ _ _)
  rw [hgroups] at hhoused ⊢
  have hspans : atomicSpans body.mentions none (group :: groups) ≠ [] := by
    intro hnil
    rw [hnil] at hhoused
    have hnone : body.mentions = [] := List.eq_nil_iff_forall_not_mem.mpr fun m hm => by
      obtain ⟨span, hspan, _⟩ := hhoused m hm
      cases hspan
    rw [hnone] at hnil
    cases hnil
  obtain ⟨span, spans, hcons⟩ := List.exists_cons_of_ne_nil hspans
  rw [sourceSections, hcons]
  simp [sectionsAt]

theorem codeParts_spec (h : codeSection block = true)
    (hms : Placed 0 block.text.length block.mentions) (hkeeps : KeepsCode limit block) :
    ∃ parts, codeParts limit block = .ok parts ∧ Carries block parts ∧
      solid (Run.mk block true parts).content = solid block.text := by
  obtain ⟨hbody, hquotes, htext⟩ := codeBody_spec h hms
  obtain ⟨hne, hhoused, hroom⟩ := hkeeps (codeBody block)
    (codeBodies_eq h hms ▸ List.mem_singleton.mpr rfl)
  have hcov := covering_codeGroups (codeRoom block limit) (codeBody block)
  obtain ⟨hcarries, hsolid⟩ := sourceSections_carries hcov hbody hhoused
  have hsections := codeSections_ne_nil (codeRoom block limit) hne hhoused
  have hpos : 1 ≤ codeRoom block limit := Nat.le_max_left ..
  have hshort : Short (codeRoom block limit) (codeBody block) := by
    intro quote hquote
    obtain ⟨m, hm, rfl⟩ := List.mem_map.mp hquote
    obtain ⟨hstart, hlt, hstop⟩ := hbody.mem_range hm
    have hlength := length_slice hstart (Int.le_of_lt hlt) hstop
    have hle := hroom m hm
    dsimp only
    omega
  obtain ⟨bounded, hrun, hall, htexts, hbounded⟩ := exists_bounded hpos hcarries.placed
    fun part hpart => (hshort.of_carries hcarries hpart).lengths (hcarries.placed part hpart)
  refine ⟨bounded.flatten.map (enclosed (codeOpening block) (codeClosing block)), ?_,
    (hcarries.flatten hall).enclosed _ _ hquotes, ?_⟩
  · unfold codeParts
    dsimp only
    rw [codeBodies_eq h hms, List.flatMap_singleton, hrun]
    rfl
  · rw [content_enclosed block (hbounded hsections), htexts, List.append_assoc, solid_append,
      solid_append, hsolid, ← solid_append, ← solid_append, htext]

theorem plainParts_spec (hlimit : 1 ≤ limit) (hms : Placed 0 sec.text.length sec.mentions)
    (hshort : Short limit sec) (hkeeps : KeepsPlain limit sec) :
    ∃ parts, plainParts limit sec = .ok parts ∧ Carries sec parts ∧
      solid (Run.mk sec false parts).content = solid sec.text := by
  have hcov := covering_plainRanges hlimit sec.text
  obtain ⟨hcarries, hsolid⟩ := sourceSections_carries hcov hms hkeeps
  obtain ⟨bounded, hrun, hall, htexts, _⟩ := exists_bounded hlimit hcarries.placed
    fun part hpart => (hshort.of_carries hcarries hpart).lengths (hcarries.placed part hpart)
  refine ⟨bounded.flatten, ?_, hcarries.flatten hall, ?_⟩
  · unfold plainParts
    rw [hrun]
    rfl
  · change solid (bounded.flatten.flatMap (·.text)) = _
    rw [htexts, hsolid]

/-- One section becomes a run that keeps its mentions and its content. -/
theorem splitSection_spec (hlimit : 1 ≤ limit) (hms : Placed 0 sec.text.length sec.mentions)
    (hshort : Short limit sec) (hcode : codeSection sec = true → KeepsCode limit sec)
    (hplain : codeSection sec = false → KeepsPlain limit sec) :
    ∃ run, splitSection limit sec = .ok run ∧ Carries sec run.parts ∧
      solid run.content = solid sec.text := by
  unfold splitSection
  cases h : codeSection sec with
  | true =>
    obtain ⟨parts, hrun, hcarries, hsolid⟩ := codeParts_spec h hms (hcode h)
    rw [if_pos rfl, hrun]
    exact ⟨_, rfl, hcarries, hsolid⟩
  | false =>
    obtain ⟨parts, hrun, hcarries, hsolid⟩ := plainParts_spec hlimit hms hshort (hplain h)
    rw [if_neg Bool.false_ne_true, hrun]
    exact ⟨_, rfl, hcarries, hsolid⟩

/-! The sections of a message. -/

/-- Spans that leave nothing out hold every mention once they are joined; a span that waits
joins the first one. -/
theorem housed_atomicSpans {lo hi : Int} {ms : List TransportMention} {start : Nat}
    {pieces : List Text} {pendingStart : Option Nat} (hms : Placed lo hi ms)
    (hpending : ∀ p, pendingStart = some p → p ≤ start ∧ ms ≠ [])
    (hstarts : ∀ m ∈ ms, ((pendingStart.getD start : Nat) : Int) ≤ m.textStart)
    (hends : ∀ m ∈ ms, (start : Int) < m.textEnd ∧
      m.textEnd ≤ ((start + pieces.flatten.length : Nat) : Int)) :
    Housed ms (atomicSpans ms pendingStart (spansFrom start pieces)) ∧
      ∀ p, pendingStart = some p →
        ∃ span ∈ atomicSpans ms pendingStart (spansFrom start pieces),
          span.1 = p ∧ start ≤ span.2 := by
  induction pieces generalizing ms lo start pendingStart with
  | nil =>
    have hnone : ms = [] := List.eq_nil_iff_forall_not_mem.mpr fun m hm => by
      have hrange := hends m hm
      simp only [List.flatten_nil, List.length_nil, Nat.add_zero] at hrange
      omega
    refine ⟨fun m hm => ?_, fun p hp => absurd hnone (hpending p hp).2⟩
    rw [hnone] at hm
    cases hm
  | cons piece pieces ih =>
    rw [List.flatten_cons, List.length_append, ← Nat.add_assoc] at hends
    obtain ⟨first, hfirst⟩ : ∃ first, first = pendingStart.getD start := ⟨_, rfl⟩
    have hle : first ≤ start := by
      cases pendingStart with
      | none => exact Nat.le_of_eq hfirst
      | some p => exact hfirst ▸ (hpending p rfl).1
    have hwaits : ∀ p, pendingStart = some p → first = p := fun p hp => by rw [hfirst, hp]; rfl
    have hbehind := hms.dropWhile_endsBy (a := start + piece.length)
    obtain ⟨mid, hrest⟩ := hms.dropWhile (p := endsBy (start + piece.length))
    have hsplit := List.takeWhile_append_dropWhile (p := endsBy (start + piece.length)) (l := ms)
    have hsub : ∀ m ∈ ms.dropWhile (endsBy (start + piece.length)), m ∈ ms := fun m hm =>
      (List.dropWhile_suffix _).subset hm
    have hpassed : ∀ m ∈ ms.takeWhile (endsBy (start + piece.length)),
        (first : Int) ≤ m.textStart ∧ m.textEnd ≤ ((start + piece.length : Nat) : Int) :=
      fun m hm => ⟨hfirst ▸ hstarts m ((List.takeWhile_prefix _).subset hm),
        by simpa [endsBy] using List.mem_takeWhile_imp hm⟩
    rw [spansFrom, atomicSpans]
    dsimp only
    rw [← hfirst]
    cases hd : ms.dropWhile (endsBy (start + piece.length)) with
    | nil =>
      rw [hd, List.append_nil] at hsplit
      rw [hsplit] at hpassed
      exact ⟨fun m hm => ⟨_, List.mem_cons_self, hpassed m hm⟩,
        fun p hp => ⟨_, List.mem_cons_self, hwaits p hp, Nat.le_add_right _ _⟩⟩
    | cons m more =>
      rw [hd] at hbehind hrest hsub hsplit
      have hends' : ∀ m' ∈ m :: more, ((start + piece.length : Nat) : Int) < m'.textEnd ∧
          m'.textEnd ≤ ((start + piece.length + pieces.flatten.length : Nat) : Int) :=
        fun m' hm' => ⟨hbehind m' hm', (hends m' (hsub m' hm')).2⟩
      dsimp only
      split
      · obtain ⟨hhoused, hjoins⟩ := @ih mid (m :: more) (start + piece.length) (some first) hrest
          (fun p hp => by cases hp; exact ⟨by omega, by simp⟩)
          (fun m' hm' => hfirst ▸ hstarts m' (hsub m' hm')) hends'
        obtain ⟨span, hspan, heq, hstop⟩ := hjoins first rfl
        refine ⟨fun m' hm' => ?_, fun p hp => ⟨span, hspan, heq.trans (hwaits p hp), by omega⟩⟩
        rw [← hsplit] at hm'
        rcases List.mem_append.mp hm' with hm' | hm'
        · obtain ⟨hstart, hend⟩ := hpassed m' hm'
          exact ⟨span, hspan, by omega, by omega⟩
        · exact hhoused m' hm'
      · rename_i hbefore
        have hfree : ∀ m' ∈ m :: more, ((start + piece.length : Nat) : Int) ≤ m'.textStart := by
          have hkeep : (m :: more).dropWhile (startsBefore (start + piece.length)) = m :: more :=
            List.dropWhile_cons_of_neg hbefore
          have hall := hrest.dropWhile_startsBefore (a := start + piece.length)
          rwa [hkeep] at hall
        obtain ⟨hhoused, _⟩ := @ih mid (m :: more) (start + piece.length) none hrest (by simp)
          hfree hends'
        refine ⟨fun m' hm' => ?_, fun p hp =>
          ⟨_, List.mem_cons_self, hwaits p hp, Nat.le_add_right _ _⟩⟩
        rw [← hsplit] at hm'
        rcases List.mem_append.mp hm' with hm' | hm'
        · exact ⟨_, List.mem_cons_self, hpassed m' hm'⟩
        · obtain ⟨span, hspan, hin⟩ := hhoused m' hm'
          exact ⟨span, List.mem_cons_of_mem _ hspan, hin⟩

theorem housed_fenceSpans (hms : Placed 0 sec.text.length sec.mentions) :
    Housed sec.mentions (atomicSpans sec.mentions none (fenceSpans sec.text)) := by
  have hflatten : (fencedParts sec.text).flatten = sec.text := by
    rw [fencedParts, flatten_filter_nonempty, flatten_split]
  refine (housed_atomicSpans hms (by simp) (fun m hm => ?_) fun m hm => ?_).1
  · exact (hms.mem_range hm).1
  · have hrange := hms.mem_range hm
    rw [hflatten]
    omega

theorem content_runs {runs : List Run} {sections : List TransportMessage}
    (h : List.Forall₂ (fun sec run => Carries sec run.parts ∧ solid run.content = solid sec.text)
      sections runs) :
    solid (runs.flatMap Run.content) = solid (sections.flatMap (·.text)) := by
  induction h with
  | nil => rfl
  | cons hfirst _ ih =>
    rw [List.flatMap_cons, List.flatMap_cons, solid_append, solid_append, hfirst.2, ih]

theorem spannedRuns_spec (hlimit : 1 ≤ limit) (hms : Placed 0 sec.text.length sec.mentions)
    (hshort : Short limit sec)
    (hcode : limit < sec.text.length → ∀ part ∈ sourceSections sec (fenceSpans sec.text),
      codeSection part = true → KeepsCode limit part)
    (hplain : limit < sec.text.length → ∀ part ∈ sourceSections sec (fenceSpans sec.text),
      codeSection part = false → KeepsPlain limit part) :
    ∃ runs, spannedRuns limit sec = .ok runs ∧ Carries sec (runs.flatMap Run.parts) ∧
      solid (runs.flatMap Run.content) = solid sec.text := by
  by_cases hfits : sec.text.length ≤ limit
  · refine ⟨[⟨sec, false, [sec]⟩], if_pos hfits, ?_, ?_⟩
    · simpa using Carries.self hms
    · simp [Run.content]
  · have hlong := Nat.not_le.mp hfits
    obtain ⟨hcarries, hsolid⟩ := sourceSections_carries (covering_fenceSpans sec.text) hms
      (housed_fenceSpans hms)
    obtain ⟨runs, hrun, hall⟩ := exists_mapM_ok fun part hpart =>
      splitSection_spec hlimit (hcarries.placed part hpart) (hshort.of_carries hcarries hpart)
        (hcode hlong part hpart) (hplain hlong part hpart)
    refine ⟨runs, ?_, ?_, ?_⟩
    · rw [spannedRuns, if_neg hfits]
      exact hrun
    · have hparts : List.Forall₂ Carries (sourceSections sec (fenceSpans sec.text))
          (runs.map Run.parts) := List.forall₂_map_right_iff.mpr (hall.imp fun _ _ h => h.1)
      rw [List.flatMap_def]
      exact hcarries.flatten hparts
    · rw [content_runs hall, hsolid]

/-! The messages of a text. -/

theorem joined_spec {groups : List (List (TransportMessage × Nat))}
    (hplaced : ∀ part ∈ groups.flatten.map (·.1), Placed 0 part.text.length part.mentions) :
    let joined := (groups.filter (!·.isEmpty)).map fun group => joinMessages (group.map (·.1))
    (∀ part ∈ joined, Placed 0 part.text.length part.mentions) ∧
      joined.flatMap quoted = (groups.flatten.map (·.1)).flatMap quoted ∧
      solid (joined.flatMap (·.text)) = solid ((groups.flatten.map (·.1)).flatMap (·.text)) := by
  induction groups with
  | nil => simp
  | cons group groups ih =>
    have hrest := ih fun part hpart => hplaced part (by
      rw [List.flatten_cons, List.map_append]
      exact List.mem_append_right _ hpart)
    cases group with
    | nil => simpa using hrest
    | cons first rest =>
      obtain ⟨hp, hq, hs⟩ := @joinMessages_spec ((first :: rest).map (·.1)) fun part hpart =>
        hplaced part (by
          rw [List.flatten_cons, List.map_append]
          exact List.mem_append_left _ hpart)
      dsimp only at hrest ⊢
      rw [List.filter_cons_of_pos (by rfl), List.map_cons, List.flatMap_cons, List.flatMap_cons,
        List.flatten_cons, List.map_append, List.flatMap_append, List.flatMap_append, solid_append,
        solid_append, hq, hs, hrest.2.1, hrest.2.2]
      refine ⟨fun part hpart => ?_, rfl, rfl⟩
      rcases List.mem_cons.mp hpart with rfl | hpart
      · exact hp
      · exact hrest.1 part hpart

theorem chatSections_carries (hmax : 1 ≤ reply.hardMaxMessages)
    (hms : Placed 0 message.text.length message.mentions)
    (hlines : Housed message.mentions (chatSpans message.text)) :
    Carries message (chatSections message reply) ∧
      solid ((chatSections message reply).flatMap (·.text)) = solid message.text := by
  obtain ⟨hcarries, hsolid⟩ := sectionsAt_carries (covering_chatSpans message.text) hms hlines
  unfold chatSections
  dsimp only
  split
  swap
  · exact ⟨hcarries, hsolid⟩
  generalize sectionsAt message message.mentions (chatSpans message.text) = sections at *
  have hflatten := @flatten_buckets _
    (fun sec : TransportMessage × Nat => min (sec.2 * reply.hardMaxMessages / sections.length)
      (reply.hardMaxMessages - 1)) sections.zipIdx reply.hardMaxMessages
    (pairwise_groupIndex sections reply.hardMaxMessages sections.length)
    (fun item _ => by omega)
  have hsections : (buckets reply.hardMaxMessages (fun sec : TransportMessage × Nat =>
      min (sec.2 * reply.hardMaxMessages / sections.length) (reply.hardMaxMessages - 1))
        sections.zipIdx).flatten.map (·.1) = sections := by
    rw [hflatten, List.zipIdx_map_fst]
  obtain ⟨hp, hq, hs⟩ := joined_spec (hsections.symm ▸ hcarries.placed)
  rw [hsections] at hq hs
  exact ⟨⟨hp, hq.trans hcarries.quotes⟩, hs.trans hsolid⟩

/-! The parts of a message. -/

theorem flatten_map_flatMap {α β : Type} (f : α → List β) (groups : List (List α)) :
    (groups.map (·.flatMap f)).flatten = groups.flatten.flatMap f := by
  induction groups with
  | nil => rfl
  | cons group groups ih =>
    rw [List.map_cons, List.flatten_cons, List.flatten_cons, List.flatMap_append, ih]

theorem content_groups {sections : List TransportMessage} {groups : List (List Run)}
    (h : List.Forall₂ (fun sec runs => solid (runs.flatMap Run.content) = solid sec.text) sections
      groups) :
    solid (groups.flatten.flatMap Run.content) = solid (sections.flatMap (·.text)) := by
  induction h with
  | nil => rfl
  | cons hfirst _ ih =>
    rw [List.flatten_cons, List.flatMap_append, List.flatMap_cons, solid_append, solid_append,
      hfirst, ih]

theorem runsOf_spec (hmax : 1 ≤ reply.hardMaxMessages) (hlimit : 1 ≤ reply.maxQqMessageChars)
    (hms : Placed 0 message.text.length message.mentions)
    (hshort : Short reply.maxQqMessageChars message) (hkeeps : Keeps message reply) :
    ∃ runs, runsOf message reply = .ok runs ∧ Carries message (runs.flatMap Run.parts) ∧
      solid (runs.flatMap Run.content) = solid message.text := by
  obtain ⟨hcarries, hsolid⟩ := chatSections_carries hmax hms hkeeps.lines
  have hlong : ∀ sec ∈ chatSections message reply, reply.maxQqMessageChars < sec.text.length →
      ∀ part ∈ sourceSections sec (fenceSpans sec.text), part ∈ longSections message reply := by
    intro sec hsec hlong part hpart
    refine List.mem_flatMap.mpr ⟨sec, hsec, ?_⟩
    rwa [if_neg (Nat.not_le.mpr hlong)]
  obtain ⟨groups, hrun, hall⟩ := exists_mapM_ok fun sec hsec =>
    spannedRuns_spec hlimit (hcarries.placed sec hsec) (hshort.of_carries hcarries hsec)
      (fun h part hpart => hkeeps.codes part (hlong sec hsec h part hpart))
      (fun h part hpart => hkeeps.plains part (hlong sec hsec h part hpart))
  have hparts : List.Forall₂ Carries (chatSections message reply)
      (groups.map (·.flatMap Run.parts)) :=
    List.forall₂_map_right_iff.mpr (hall.imp fun _ _ h => h.1)
  refine ⟨groups.flatten, ?_, ?_, ?_⟩
  · rw [runsOf, hrun]
    rfl
  · have hflatten := hcarries.flatten hparts
    rwa [flatten_map_flatMap] at hflatten
  · rw [← hsolid]
    exact content_groups (hall.imp fun _ _ h => h.2)

theorem Carries.merged {chunks : List TransportMessage} (h : Carries message chunks)
    (hardMax : Nat) : Carries message (mergedParts hardMax chunks) := by
  unfold mergedParts
  split
  swap
  · exact h
  have hsplit := List.take_append_drop (hardMax - 1) chunks
  obtain ⟨hp, hq, _⟩ := @joinMessages_spec (chunks.drop (hardMax - 1)) fun part hpart =>
    h.placed part (List.mem_of_mem_drop hpart)
  refine ⟨fun part hpart => ?_, ?_⟩
  · rcases List.mem_append.mp hpart with hpart | hpart
    · exact h.placed part (List.mem_of_mem_take hpart)
    · exact List.mem_singleton.mp hpart ▸ hp
  · rw [List.flatMap_append, List.flatMap_singleton, hq, ← List.flatMap_append, hsplit, h.quotes]

theorem length_mergedParts_le {hardMax : Nat} (hmax : 1 ≤ hardMax)
    (chunks : List TransportMessage) : (mergedParts hardMax chunks).length ≤ hardMax := by
  unfold mergedParts
  split
  · rw [List.length_append, List.length_singleton, List.length_take]
    omega
  · omega

theorem Carries.referenced (h : Carries message parts) (reference : Option String) :
    Carries message (referenced reference parts) := by
  cases parts with
  | nil => exact h
  | cons part parts =>
    refine ⟨fun p hp => ?_, ?_⟩
    · rcases List.mem_cons.mp hp with rfl | hp
      · exact h.placed part List.mem_cons_self
      · obtain ⟨later, hlater, rfl⟩ := List.mem_map.mp hp
        exact h.placed later (List.mem_cons_of_mem _ hlater)
    · rw [← h.quotes]
      simp only [Outbound.referenced, List.flatMap_cons, List.flatMap_map]
      rfl

theorem length_referenced (reference : Option String) (parts : List TransportMessage) :
    (referenced reference parts).length = parts.length := by
  cases parts <;> simp [referenced]

end Yuki.Outbound

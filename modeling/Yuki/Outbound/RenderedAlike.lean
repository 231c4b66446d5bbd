import Yuki.Outbound.CodeBlocks

/-! Rendering with mentions cuts a text as plain rendering does, where the mentions stand in
pieces that are not cut and both paths count the code blocks the same way. -/

namespace Yuki.Outbound

open Pieces

variable {message sec part : TransportMessage} {text : Text} {limit : Nat} {reply : ReplyConfig}

/-- Each mention stands in a line, a sentence or a code line that the plain path leaves whole. -/
structure Whole (message : TransportMessage) (reply : ReplyConfig) : Prop where
  lines : Housed message.mentions (chatSpans message.text)
  parts : ∀ sec ∈ chatSections message reply, reply.maxQqMessageChars < sec.text.length →
    Housed sec.mentions (fenceSpans sec.text)
  sentences : ∀ part ∈ longSections message reply, isCode part.text = false →
    Housed part.mentions (plainRanges part.text reply.maxQqMessageChars)
  codes : ∀ part ∈ longSections message reply, isCode part.text = true →
    codeSection part = true ∧ Housed (codeBody part).mentions
      (within (codeRoom part reply.maxQqMessageChars)
        (lineSpans 0 (splitlinesKeep (innerText part.text))))

/-- The parts of the messages that are too long, at their fenced blocks. -/
def longParts (text : Text) (reply : ReplyConfig) : List Text :=
  (messagesOf text reply).flatMap fun message =>
    if message.length ≤ reply.maxQqMessageChars then [] else fencedParts message

/-- Every code block is divided evenly, and what only begins like one is short and trimmed. -/
structure Alike (text : Text) (reply : ReplyConfig) : Prop where
  blocks : ∀ part ∈ longParts text reply, isCode part = true →
    Evenly reply.maxQqMessageChars part
  strays : ∀ part ∈ longParts text reply, isCode part = false → startsWithFence part = true →
    part.length ≤ reply.maxQqMessageChars ∧ stripped part = part

/-! One part. -/

theorem splitQqMessage_short (h : text.length ≤ limit) (hblank : isBlank text = false) :
    splitQqMessage text limit = [stripped text] := by
  have hflatten : ((split paragraphBreak text.length text).filter (!·.isEmpty)).flatten = text := by
    rw [flatten_filter_nonempty, flatten_split]
  have hempty : text.isEmpty = false := by
    cases text with
    | nil => cases hblank
    | cons c cs => rfl
  rw [splitQqMessage, hempty, if_neg Bool.false_ne_true, greedy_of_fits _ _ (by simpa [hflatten]),
    List.nil_append, hflatten, hblank, if_neg Bool.false_ne_true]

theorem plainParts_texts (hlimit : 1 ≤ limit) (hms : Placed 0 part.text.length part.mentions)
    (hhoused : Housed part.mentions (plainRanges part.text limit)) :
    ∃ parts, plainParts limit part = .ok parts ∧
      parts.map (·.text) = splitQqMessage part.text limit := by
  have hcov := covering_plainRanges hlimit part.text
  have htexts := map_plainRanges hlimit part.text
  have hsize : ∀ span ∈ plainRanges part.text limit, (textAt part.text span).length ≤ limit := by
    intro span hspan
    have hmem : textAt part.text span ∈ splitQqMessage part.text limit :=
      htexts ▸ List.mem_map_of_mem hspan
    exact (splitQqMessage_chunk part.text _ hmem).1
  have hwithin : within limit (plainRanges part.text limit) = plainRanges part.text limit := by
    refine List.filter_eq_self.mpr fun span hspan => ?_
    have hrange := hcov.mem_range hspan
    have hle := hsize span hspan
    rw [length_textAt hrange.2.1 hrange.2.2] at hle
    simpa using hle
  obtain ⟨divided, hrun, hdivided⟩ := divided_texts hlimit hcov hms (hwithin.symm ▸ hhoused)
  refine ⟨divided.flatten, ?_, ?_⟩
  · unfold plainParts
    rw [hrun]
    rfl
  · rw [hdivided, ← htexts, ← List.flatMap_singleton' (List.map _ _), List.flatMap_map]
    refine List.flatMap_congr fun span hspan => ?_
    rw [bounded, if_pos (hsize span hspan)]

theorem splitSection_texts (hlimit : 1 ≤ limit) (hms : Placed 0 part.text.length part.mentions)
    (hsentences : isCode part.text = false →
      Housed part.mentions (plainRanges part.text limit))
    (hcodes : isCode part.text = true → codeSection part = true ∧
      Housed (codeBody part).mentions (within (codeRoom part limit)
        (lineSpans 0 (splitlinesKeep (innerText part.text)))))
    (hblock : isCode part.text = true → Evenly limit part.text)
    (hstray : isCode part.text = false → startsWithFence part.text = true →
      part.text.length ≤ limit ∧ stripped part.text = part.text) :
    ∃ run, splitSection limit part = .ok run ∧
      run.parts.map (·.text) = splitPart limit part.text := by
  unfold splitSection
  cases hcode : isCode part.text with
  | true =>
    obtain ⟨hsection, hhoused⟩ := hcodes hcode
    obtain ⟨parts, hrun, htexts⟩ := codeParts_texts hsection hms hhoused (hblock hcode)
    rw [if_pos hsection, hrun]
    exact ⟨_, rfl, htexts⟩
  | false =>
    obtain ⟨parts, hrun, htexts⟩ := plainParts_texts hlimit hms (hsentences hcode)
    rw [if_neg (by simp [codeSection, hcode]), hrun]
    refine ⟨_, rfl, htexts.trans ?_⟩
    cases hfence : startsWithFence part.text with
    | false => rw [splitPart_plain hfence]
    | true =>
      obtain ⟨hshort, hstripped⟩ := hstray hcode hfence
      rw [splitPart_short hfence (Or.inl hshort),
        splitQqMessage_short hshort (isBlank_of_startsWithFence hfence), hstripped]

/-! One section. -/

theorem map_flatMap_parts {runs : List Run} {parts : List TransportMessage}
    (h : List.Forall₂ (fun part run => run.parts.map (·.text) = splitPart limit part.text) parts
      runs) :
    (runs.flatMap Run.parts).map (·.text) =
      (parts.map (·.text)).flatMap (splitPart limit) := by
  induction h with
  | nil => rfl
  | cons hfirst _ ih =>
    rw [List.flatMap_cons, List.map_append, hfirst, ih, List.map_cons, List.flatMap_cons]

theorem spannedRuns_texts (hlimit : 1 ≤ limit) (hms : Placed 0 sec.text.length sec.mentions)
    (hne : sec.text ≠ [])
    (hhoused : limit < sec.text.length → Housed sec.mentions (fenceSpans sec.text))
    (hparts : limit < sec.text.length → ∀ part ∈ sourceSections sec (fenceSpans sec.text),
      (isCode part.text = false → Housed part.mentions (plainRanges part.text limit)) ∧
      (isCode part.text = true → codeSection part = true ∧
        Housed (codeBody part).mentions (within (codeRoom part limit)
          (lineSpans 0 (splitlinesKeep (innerText part.text))))))
    (hblocks : limit < sec.text.length → ∀ part ∈ fencedParts sec.text,
      (isCode part = true → Evenly limit part) ∧
      (isCode part = false → startsWithFence part = true →
        part.length ≤ limit ∧ stripped part = part)) :
    ∃ runs, spannedRuns limit sec = .ok runs ∧
      (runs.flatMap Run.parts).map (·.text) = splitPreservingStructure limit sec.text := by
  by_cases hfits : sec.text.length ≤ limit
  · refine ⟨[⟨sec, false, [sec]⟩], if_pos hfits, ?_⟩
    rw [splitPreservingStructure, if_pos hfits, if_neg (by simpa using hne)]
    rfl
  have hlong := Nat.not_le.mp hfits
  have hcov := covering_fenceSpans sec.text
  have hsections : sourceSections sec (fenceSpans sec.text) =
      sectionsAt sec sec.mentions (fenceSpans sec.text) := by
    rw [sourceSections, atomicSpans_of_housed hcov hms (hhoused hlong)]
  obtain ⟨hplaced, _, htexts⟩ := sectionsAt_spec hcov (Nat.le_refl _) hms (hhoused hlong)
  rw [← hsections] at hplaced htexts
  rw [map_fenceSpans] at htexts
  have hsplit : ∀ part ∈ sourceSections sec (fenceSpans sec.text), ∃ run,
      splitSection limit part = .ok run ∧
        run.parts.map (·.text) = splitPart limit part.text := by
    intro part hpart
    have hmem : part.text ∈ fencedParts sec.text := htexts ▸ List.mem_map_of_mem hpart
    obtain ⟨hblock, hstray⟩ := hblocks hlong part.text hmem
    exact splitSection_texts hlimit (hplaced part hpart) (hparts hlong part hpart).1
      (hparts hlong part hpart).2 hblock hstray
  obtain ⟨runs, hrun, hall⟩ := exists_mapM_ok hsplit
  refine ⟨runs, ?_, ?_⟩
  · rw [spannedRuns, if_neg hfits]
    exact hrun
  · rw [map_flatMap_parts hall, htexts, splitPreservingStructure, if_neg hfits]
    refine (List.filter_eq_self.mpr fun chunk hchunk => ?_).symm
    obtain ⟨part, _, hpart⟩ := List.mem_flatMap.mp hchunk
    simp [splitPart_nonblank part chunk hpart]

/-! The sections of a message. -/

theorem map_chatSections (hmax : 1 ≤ reply.hardMaxMessages)
    (hms : Placed 0 message.text.length message.mentions) (hne : message.text ≠ [])
    (hlines : Housed message.mentions (chatSpans message.text)) :
    (chatSections message reply).map (·.text) = messagesOf message.text reply := by
  have hcov := covering_chatSpans message.text
  have htexts := (sectionsAt_spec hcov (Nat.le_refl _) hms hlines).2.2
  rw [map_chatSpans] at htexts
  obtain ⟨sections, hsections⟩ : ∃ sections, sections =
      sectionsAt message message.mentions (chatSpans message.text) := ⟨_, rfl⟩
  obtain ⟨lines, hstripped⟩ : ∃ lines, lines =
      ((chatLines message.text).filter (!isBlank ·)).map stripped := ⟨_, rfl⟩
  have hlength := congrArg List.length htexts
  unfold chatSections messagesOf splitChatLineSections
  dsimp only at htexts hlength ⊢
  rw [← hsections, ← hstripped] at htexts hlength
  rw [← hsections, ← hstripped, if_neg (show ¬message.text.isEmpty = true by simpa using hne)]
  rw [List.length_map] at hlength
  cases hstructured : structured message.text with
  | true =>
    rw [hstructured, if_pos (by rfl)] at htexts
    simpa using htexts
  | false =>
    rw [hstructured] at htexts hlength
    by_cases hfew : lines.length < 2
    · rw [if_pos (by simpa using hfew)] at htexts hlength
      rw [if_neg (by simp [hlength]; omega), if_neg Bool.false_ne_true, if_pos hfew]
      exact htexts
    · rw [if_neg (by simpa using hfew)] at htexts hlength
      rw [if_neg Bool.false_ne_true, if_neg hfew]
      by_cases hmany : reply.hardMaxMessages < lines.length
      · rw [if_pos (by simp [hlength, hmany]), if_neg (by omega), ← htexts, List.zipIdx_map,
          buckets_map, List.filter_map, List.map_map, List.map_map, List.length_map]
        have hempty : ((fun group : List (Text × Nat) => !group.isEmpty) ∘
            fun group : List (TransportMessage × Nat) =>
              group.map (Prod.map TransportMessage.text id)) =
            fun group : List (TransportMessage × Nat) => !group.isEmpty :=
          funext fun group => by cases group <;> rfl
        rw [hempty]
        refine List.map_congr_left fun group _ => ?_
        rw [Function.comp_apply, Function.comp_apply, joinMessages, List.map_map, List.map_map]
        rfl
      · rw [if_neg (by simp [hlength]; omega), if_pos (by omega)]
        exact htexts

theorem ne_nil_of_mem_messagesOf (hne : text ≠ []) : ∀ message ∈ messagesOf text reply,
    message ≠ [] := by
  intro message hmessage
  rcases mem_messagesOf message hmessage with rfl | hblank
  · exact hne
  · rintro rfl
    cases hblank

theorem runsOf_texts (hmax : 1 ≤ reply.hardMaxMessages) (hlimit : 1 ≤ reply.maxQqMessageChars)
    (hms : Placed 0 message.text.length message.mentions) (hne : message.text ≠ [])
    (hwhole : Whole message reply) (halike : Alike message.text reply) :
    ∃ runs, runsOf message reply = .ok runs ∧
      (runs.flatMap Run.parts).map (·.text) = chunksOf message.text reply := by
  obtain ⟨hcarries, _⟩ := chatSections_carries hmax hms hwhole.lines
  have htexts := map_chatSections hmax hms hne hwhole.lines
  have hsplit : ∀ sec ∈ chatSections message reply, ∃ runs,
      spannedRuns reply.maxQqMessageChars sec = .ok runs ∧ (runs.flatMap Run.parts).map (·.text) =
        splitPreservingStructure reply.maxQqMessageChars sec.text := by
    intro sec hsec
    have hmem : sec.text ∈ messagesOf message.text reply := htexts ▸ List.mem_map_of_mem hsec
    have hparts : reply.maxQqMessageChars < sec.text.length →
        ∀ part ∈ sourceSections sec (fenceSpans sec.text), part ∈ longSections message reply := by
      intro hlong part hpart
      refine List.mem_flatMap.mpr ⟨sec, hsec, ?_⟩
      rwa [if_neg (Nat.not_le.mpr hlong)]
    have hpieces : reply.maxQqMessageChars < sec.text.length →
        ∀ part ∈ fencedParts sec.text, part ∈ longParts message.text reply := by
      intro hlong part hpart
      refine List.mem_flatMap.mpr ⟨sec.text, hmem, ?_⟩
      rwa [if_neg (Nat.not_le.mpr hlong)]
    exact spannedRuns_texts hlimit (hcarries.placed sec hsec) (ne_nil_of_mem_messagesOf hne _ hmem)
      (hwhole.parts sec hsec)
      (fun hlong part hpart => ⟨hwhole.sentences part (hparts hlong part hpart),
        hwhole.codes part (hparts hlong part hpart)⟩)
      (fun hlong part hpart => ⟨halike.blocks part (hpieces hlong part hpart),
        halike.strays part (hpieces hlong part hpart)⟩)
  obtain ⟨groups, hrun, hall⟩ := exists_mapM_ok hsplit
  refine ⟨groups.flatten, ?_, ?_⟩
  · rw [runsOf, hrun]
    rfl
  · rw [chunksOf, ← htexts]
    clear hrun htexts hsplit hcarries hwhole
    generalize chatSections message reply = sections at hall ⊢
    induction hall with
    | nil => rfl
    | cons hfirst _ ih =>
      rw [List.flatten_cons, List.flatMap_append, List.map_append, hfirst, ih, List.map_cons,
        List.flatMap_cons]

theorem map_mergedParts (hardMax : Nat) (chunks : List TransportMessage) :
    (mergedParts hardMax chunks).map (·.text) =
      if (chunks.map (·.text)).length ≤ hardMax then chunks.map (·.text)
      else (chunks.map (·.text)).take (hardMax - 1) ++
        [joinLines ((chunks.map (·.text)).drop (hardMax - 1))] := by
  rw [mergedParts, List.length_map]
  by_cases hmany : hardMax < chunks.length
  · rw [if_pos hmany, if_neg (Nat.not_le.mpr hmany), List.map_append, List.map_singleton,
      List.map_take, ← List.map_drop]
    rfl
  · rw [if_neg hmany, if_pos (Nat.not_lt.mp hmany)]

theorem map_referenced (reference : Option String) (parts : List TransportMessage) :
    (referenced reference parts).map (·.text) = parts.map (·.text) := by
  cases parts with
  | nil => rfl
  | cons part parts =>
    rw [referenced, List.map_cons, List.map_cons, List.map_map]
    rfl

/-- Where the mentions stand in whole pieces and every code block is divided evenly, the parts of
the message are the chunks of its text. -/
theorem render_message_cuts_alike (message : TransportMessage) (reply : ReplyConfig)
    (hmax : 1 ≤ reply.hardMaxMessages) (hlimit : 1 ≤ reply.maxQqMessageChars)
    (hmentions : message.mentions ≠ [])
    (hms : Placed 0 message.text.length message.mentions) (hwhole : Whole message reply)
    (halike : Alike message.text reply) :
    ∃ parts, renderMessage message reply = .ok parts ∧
      parts.map (·.text) = render message.text reply := by
  have hne : message.text ≠ [] := by
    obtain ⟨m, hm⟩ := List.exists_mem_of_ne_nil _ hmentions
    have hrange := hms.mem_range hm
    refine List.ne_nil_of_length_pos ?_
    omega
  obtain ⟨runs, hrun, htexts⟩ := runsOf_texts hmax hlimit hms hne hwhole halike
  refine ⟨referenced message.replyReference
    (mergedParts reply.hardMaxMessages (runs.flatMap Run.parts)), ?_, ?_⟩
  · rw [renderMessage, if_neg (by simpa using hmentions), hrun]
    rfl
  · rw [map_referenced, map_mergedParts, htexts]
    rfl

theorem render_message_cuts_alike_greeting :
    let message : TransportMessage :=
      { text := "```\naaa\nbbb\ncccc\n```".toList
        mentions := [{ externalId := "7", displayName := "b", textStart := 9, textEnd := 10 }] }
    ∃ parts, renderMessage message ⟨5, 15⟩ = .ok parts ∧
      parts.map (·.text) = render message.text ⟨5, 15⟩ :=
  render_message_cuts_alike _ ⟨5, 15⟩ (by decide) (by decide) (by decide)
    (.cons (by decide) (by decide) (.nil (by decide)))
    ⟨by decide, by decide, by decide, by decide⟩ ⟨by decide, by decide⟩

/-- Two lines of code that fill the room behind a full group: only the plain path parts them. -/
theorem render_parts_full_group :
    let message : TransportMessage :=
      { text := "```\naaa\nbbb\nccc\nddd\n```".toList
        mentions := [{ externalId := "7", displayName := "b", textStart := 9, textEnd := 10 }] }
    Placed 0 message.text.length message.mentions ∧ Whole message ⟨5, 15⟩ ∧
      ¬∃ parts, renderMessage message ⟨5, 15⟩ = .ok parts ∧
        parts.map (·.text) = render message.text ⟨5, 15⟩ := by
  intro message
  refine ⟨.cons (by decide) (by decide) (.nil (by decide)),
    ⟨by decide, by decide, by decide, by decide⟩, ?_⟩
  rintro ⟨parts, hrender, htexts⟩
  have hspanned : (renderMessage message ⟨5, 15⟩).map List.length = .ok 2 := by decide
  have hplain : (render message.text ⟨5, 15⟩).length = 3 := by decide
  rw [hrender] at hspanned
  rw [← htexts, List.length_map] at hplain
  have htwo : parts.length = 2 := Except.ok.inj hspanned
  omega

end Yuki.Outbound

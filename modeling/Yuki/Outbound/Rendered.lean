import Mathlib.Algebra.Order.BigOperators.Group.List
import Mathlib.Algebra.Order.Group.Nat
import Yuki.Outbound.Cuts

/-! Plain rendering keeps the content of a text and its limit, but for parts that only begin
like a fenced block. -/

namespace Yuki.Outbound

open Pieces

def cutsOf (limit : Nat) (message : Text) : List Cut :=
  if message.length ≤ limit then if message.isEmpty then [] else [⟨message, [message]⟩]
  else (fencedParts message).map fun part =>
    ⟨part, (splitPart limit part).filter (!isBlank ·)⟩

def cuts (text : Text) (reply : ReplyConfig) : List Cut :=
  (messagesOf text reply).flatMap (cutsOf reply.maxQqMessageChars)

/-- Plain rendering preserves the content of the text and respects the limit. -/
structure Preserves (text : Text) (reply : ReplyConfig) : Prop where
  count : (render text reply).length ≤ reply.hardMaxMessages
  nonblank : ∀ chunk ∈ render text reply, isBlank chunk = false
  content : solid ((cuts text reply).flatMap (Cut.content reply.maxQqMessageChars)) = solid text
  sizes : (chunksOf text reply).length ≤ reply.hardMaxMessages →
    ∀ cut ∈ cuts text reply, ∀ chunk ∈ cut.chunks,
      chunk.length ≤ reply.maxQqMessageChars ∨ cut.roomless reply.maxQqMessageChars

def strayParts (text : Text) (reply : ReplyConfig) : List Text :=
  (messagesOf text reply).flatMap fun message =>
    if message.length ≤ reply.maxQqMessageChars then []
    else (fencedParts message).filter (stray reply.maxQqMessageChars)

/-- The texts that plain rendering preserves. -/
structure Regular (text : Text) (reply : ReplyConfig) : Prop where
  nonblank : isBlank text = true → text = [] ∨ reply.maxQqMessageChars < text.length
  unsplit : ∀ part ∈ strayParts text reply, Unsplit reply.maxQqMessageChars part
  fits : (chunksOf text reply).length ≤ reply.hardMaxMessages →
    ∀ part ∈ strayParts text reply, Fits reply.maxQqMessageChars part

variable {text : Text} {reply : ReplyConfig}

/-! The messages of a text. -/

theorem solid_fencedParts (message : Text) :
    solid (fencedParts message).flatten = solid message := by
  rw [fencedParts, flatten_filter_nonempty, flatten_split]

theorem nonblank_sections (text : Text) :
    ∀ s ∈ ((chatLines text).filter (!isBlank ·)).map stripped, isBlank s = false := by
  intro s hs
  obtain ⟨line, hline, rfl⟩ := List.mem_map.mp hs
  rw [isBlank_stripped]
  simpa using (List.mem_filter.mp hline).2

theorem solid_sections (text : Text) :
    solid (((chatLines text).filter (!isBlank ·)).map stripped).flatten = solid text := by
  rw [solid_map_stripped, solid_filter_nonblank, solid_chatLines]

theorem isBlank_joinLines {lines : List Text} (hne : lines ≠ [])
    (h : ∀ line ∈ lines, isBlank line = false) : isBlank (joinLines lines) = false := by
  rw [isBlank_eq_false_iff, solid_joinLines]
  cases lines with
  | nil => exact absurd rfl hne
  | cons line lines =>
    have hline := (isBlank_eq_false_iff line).mp (h line List.mem_cons_self)
    simp [hline]

theorem pairwise_groupIndex {α : Type} (sections : List α) (maxMessages count : Nat) :
    sections.zipIdx.Pairwise fun a b =>
      min (a.2 * maxMessages / count) (maxMessages - 1) ≤
        min (b.2 * maxMessages / count) (maxMessages - 1) := by
  have hrange : (sections.zipIdx.map (·.2)).Pairwise (· < ·) := by
    rw [List.zipIdx_map_snd]
    exact List.pairwise_lt_range'
  refine (List.pairwise_map.mp hrange).imp fun {a b} hlt => ?_
  have hmul := Nat.mul_le_mul_right maxMessages (Nat.le_of_lt hlt)
  have hdiv := Nat.div_le_div_right (c := count) hmul
  omega

/-- The groups hold the sections in their order. -/
theorem solid_groups (sections : List Text) {maxMessages : Nat} (h : 1 ≤ maxMessages)
    (groupIndex : Text × Nat → Nat)
    (hindex : groupIndex = fun s => min (s.2 * maxMessages / sections.length) (maxMessages - 1)) :
    solid ((((buckets maxMessages groupIndex sections.zipIdx).filter (!·.isEmpty)).map fun group =>
      joinLines (group.map (·.1))).flatten) = solid sections.flatten := by
  have hgroups : ∀ groups : List (List (Text × Nat)),
      solid (((groups.filter (!·.isEmpty)).map fun group => joinLines (group.map (·.1))).flatten) =
        solid ((groups.flatten.map (·.1)).flatten) := by
    intro groups
    induction groups with
    | nil => rfl
    | cons group groups ih =>
      cases group with
      | nil => simpa using ih
      | cons first rest =>
        rw [List.filter_cons_of_pos (by rfl), List.map_cons, List.flatten_cons, solid_append, ih,
          solid_joinLines, List.flatten_cons, List.map_append, List.flatten_append, solid_append]
  rw [hgroups, flatten_buckets, List.zipIdx_map_fst]
  · rw [hindex]
    exact pairwise_groupIndex sections maxMessages sections.length
  · intro item _
    rw [hindex]
    dsimp only
    omega

theorem solid_splitChatLineSections {maxMessages : Nat} (h : 1 ≤ maxMessages) :
    solid (splitChatLineSections text maxMessages).flatten = solid text := by
  unfold splitChatLineSections
  dsimp only
  split
  · split
    · rename_i hempty
      rw [List.isEmpty_iff.mp hempty]
      rfl
    · simp
  · split
    · exact solid_sections text
    · rw [solid_groups _ h _ rfl, solid_sections]

theorem mem_splitChatLineSections {maxMessages : Nat} :
    ∀ message ∈ splitChatLineSections text maxMessages,
      message = text ∨ isBlank message = false := by
  intro message hmessage
  unfold splitChatLineSections at hmessage
  dsimp only at hmessage
  split at hmessage
  · split at hmessage
    · cases hmessage
    · exact Or.inl (List.mem_singleton.mp hmessage)
  · split at hmessage
    · exact Or.inr (nonblank_sections text message hmessage)
    · obtain ⟨group, hgroup, rfl⟩ := List.mem_map.mp hmessage
      obtain ⟨hbucket, hne⟩ := List.mem_filter.mp hgroup
      obtain ⟨index, _, rfl⟩ := List.mem_map.mp hbucket
      refine Or.inr (isBlank_joinLines (by simpa using hne) fun line hline => ?_)
      obtain ⟨item, hitem, rfl⟩ := List.mem_map.mp hline
      have hsection := List.mem_map_of_mem (f := Prod.fst) (List.mem_filter.mp hitem).1
      rw [List.zipIdx_map_fst] at hsection
      exact nonblank_sections text item.1 hsection

theorem solid_messagesOf (h : 1 ≤ reply.hardMaxMessages) :
    solid (messagesOf text reply).flatten = solid text := by
  unfold messagesOf
  split
  · simp
  · exact solid_splitChatLineSections h

theorem mem_messagesOf : ∀ message ∈ messagesOf text reply,
    message = text ∨ isBlank message = false := by
  unfold messagesOf
  split
  · exact fun message hmessage => Or.inl (List.mem_singleton.mp hmessage)
  · exact mem_splitChatLineSections

theorem messagesOf_blank (h : isBlank text = true) (hne : text ≠ []) :
    messagesOf text reply = [text] := by
  have hnone : ((chatLines text).filter (!isBlank ·)).map stripped = [] := by
    refine List.eq_nil_iff_forall_not_mem.mpr fun s hs => ?_
    have hsolid := solid_sections text
    rw [(isBlank_iff text).mp h, solid_flatten, List.flatMap_eq_nil_iff] at hsolid
    exact (isBlank_eq_false_iff s).mp (nonblank_sections text s hs) (hsolid s hs)
  unfold messagesOf splitChatLineSections
  dsimp only
  rw [hnone]
  simp [hne]

/-! The cuts of a text. -/

theorem cutsOf_long {limit : Nat} {message : Text} (h : limit < message.length) :
    cutsOf limit message = (fencedParts message).map (cutOf limit) := by
  rw [cutsOf, if_neg (by omega)]
  refine List.map_congr_left fun part _ => ?_
  rw [List.filter_eq_self.mpr fun chunk hchunk => by simp [splitPart_nonblank part chunk hchunk]]
  rfl

theorem splitPreservingStructure_eq (limit : Nat) (message : Text) :
    splitPreservingStructure limit message = (cutsOf limit message).flatMap Cut.chunks := by
  unfold splitPreservingStructure cutsOf
  split
  · split
    · rfl
    · simp
  · rw [List.filter_flatMap, List.flatMap_map]

theorem chunksOf_eq (text : Text) (reply : ReplyConfig) :
    chunksOf text reply = (cuts text reply).flatMap Cut.chunks := by
  rw [chunksOf, cuts, List.flatMap_assoc]
  exact List.flatMap_congr fun message _ => splitPreservingStructure_eq _ message

/-- A cut is a short message as it is, or a part of a long one. -/
theorem mem_cuts {cut : Cut} : cut ∈ cuts text reply ↔
    (∃ message ∈ messagesOf text reply, message.length ≤ reply.maxQqMessageChars ∧
      message ≠ [] ∧ cut = ⟨message, [message]⟩) ∨
    ∃ message ∈ messagesOf text reply, reply.maxQqMessageChars < message.length ∧
      ∃ part ∈ fencedParts message, cut = cutOf reply.maxQqMessageChars part := by
  rw [cuts, List.mem_flatMap]
  constructor
  · rintro ⟨message, hmessage, hcut⟩
    by_cases hlong : reply.maxQqMessageChars < message.length
    · rw [cutsOf_long hlong] at hcut
      obtain ⟨part, hpart, rfl⟩ := List.mem_map.mp hcut
      exact Or.inr ⟨message, hmessage, hlong, part, hpart, rfl⟩
    · rw [cutsOf, if_pos (by omega)] at hcut
      split at hcut
      · cases hcut
      · rename_i hempty
        have hne : message ≠ [] := by simpa using hempty
        exact Or.inl ⟨message, hmessage, by omega, hne, List.mem_singleton.mp hcut⟩
  · rintro (⟨message, hmessage, hshort, hne, rfl⟩ | ⟨message, hmessage, hlong, part, hpart, rfl⟩)
    · refine ⟨message, hmessage, ?_⟩
      rw [cutsOf, if_pos hshort, if_neg (by simpa using hne)]
      exact List.mem_singleton.mpr rfl
    · refine ⟨message, hmessage, ?_⟩
      rw [cutsOf_long hlong]
      exact List.mem_map_of_mem hpart

theorem mem_strayParts {part : Text} : part ∈ strayParts text reply ↔
    ∃ message ∈ messagesOf text reply, reply.maxQqMessageChars < message.length ∧
      part ∈ fencedParts message ∧ stray reply.maxQqMessageChars part = true := by
  rw [strayParts, List.mem_flatMap]
  refine exists_congr fun message => and_congr_right fun _ => ?_
  split
  · rename_i hshort
    simp [Nat.not_lt.mpr hshort]
  · rename_i hlong
    rw [List.mem_filter]
    simp [Nat.not_le.mp hlong]

/-! The content of a text. -/

theorem solid_flatMap {α : Type} (f : α → Text) (xs : List α) :
    solid (xs.flatMap f) = xs.flatMap fun x => solid (f x) :=
  List.filter_flatMap ..

theorem content_short {limit : Nat} {message : Text} (h : message.length ≤ limit) :
    (Cut.mk message [message]).content limit = message := by
  rw [Cut.content, if_neg (by simp [Nat.not_lt.mpr h])]
  simp

theorem solid_partsOf (limit : Nat) (message : Text) :
    solid ((cutsOf limit message).flatMap Cut.part) = solid message := by
  by_cases hlong : limit < message.length
  · rw [cutsOf_long hlong, List.flatMap_map, ← solid_fencedParts message]
    simp [cutOf]
  · rw [cutsOf, if_pos (by omega)]
    split
    · rename_i hempty
      rw [List.isEmpty_iff.mp hempty]
      rfl
    · simp

theorem solid_parts (h : 1 ≤ reply.hardMaxMessages) :
    solid ((cuts text reply).flatMap Cut.part) = solid text := by
  rw [cuts, List.flatMap_assoc, solid_flatMap, ← solid_messagesOf h, solid_flatten]
  exact List.flatMap_congr fun message _ => solid_partsOf _ message

/-- A cut keeps its part, but for a stray part that is split, which it lengthens. -/
theorem solid_cut (hlimit : 1 ≤ reply.maxQqMessageChars) {cut : Cut} (h : cut ∈ cuts text reply) :
    solid (cut.content reply.maxQqMessageChars) = solid cut.part ∨
      ∃ part ∈ strayParts text reply, ¬ Unsplit reply.maxQqMessageChars part ∧
        (solid cut.part).length < (solid (cut.content reply.maxQqMessageChars)).length := by
  rcases mem_cuts.mp h with ⟨message, _, hshort, _, rfl⟩ |
    ⟨message, hmessage, hlong, part, hpart, rfl⟩
  · exact Or.inl (congrArg solid (content_short hshort))
  · by_cases hregular : stray reply.maxQqMessageChars part = true →
        Unsplit reply.maxQqMessageChars part
    · exact Or.inl (solid_content hlimit hregular)
    · obtain ⟨hstray, hsplit⟩ := Classical.not_imp.mp hregular
      have hmem := mem_strayParts.mpr ⟨message, hmessage, hlong, hpart, hstray⟩
      exact Or.inr ⟨part, hmem, hsplit, solid_content_lt hstray hsplit⟩

theorem content_iff (hmax : 1 ≤ reply.hardMaxMessages) (hlimit : 1 ≤ reply.maxQqMessageChars) :
    solid ((cuts text reply).flatMap (Cut.content reply.maxQqMessageChars)) = solid text ↔
      ∀ part ∈ strayParts text reply, Unsplit reply.maxQqMessageChars part := by
  rw [← @solid_parts text reply hmax, solid_flatMap, solid_flatMap]
  constructor
  · intro heq part hpart
    by_contra hsplit
    obtain ⟨message, hmessage, hlong, hmem, hstray⟩ := mem_strayParts.mp hpart
    have hcut := mem_cuts.mpr (Or.inr ⟨message, hmessage, hlong, part, hmem, rfl⟩)
    have hlengths := congrArg List.length heq
    rw [List.length_flatMap, List.length_flatMap] at hlengths
    refine Nat.ne_of_gt (List.sum_lt_sum _ _ (fun cut hc => ?_) ⟨_, hcut, ?_⟩) hlengths
    · rcases solid_cut hlimit hc with hkept | ⟨_, _, _, hlt⟩
      · exact Nat.le_of_eq (congrArg List.length hkept.symm)
      · exact Nat.le_of_lt hlt
    · exact solid_content_lt hstray hsplit
  · intro hunsplit
    refine List.flatMap_congr fun cut hcut => ?_
    rcases solid_cut hlimit hcut with hkept | ⟨part, hpart, hsplit, _⟩
    · exact hkept
    · exact absurd (hunsplit part hpart) hsplit

/-! The chunks of a text. -/

theorem nonblank_chunk
    (h : isBlank text = true → text = [] ∨ reply.maxQqMessageChars < text.length) :
    ∀ chunk ∈ chunksOf text reply, isBlank chunk = false := by
  intro chunk hchunk
  rw [chunksOf_eq] at hchunk
  obtain ⟨cut, hcut, hmem⟩ := List.mem_flatMap.mp hchunk
  rcases mem_cuts.mp hcut with ⟨message, hmessage, hshort, hne, rfl⟩ | ⟨_, _, _, part, _, rfl⟩
  · rw [List.mem_singleton.mp hmem]
    rcases mem_messagesOf message hmessage with rfl | hnonblank
    · cases hblank : isBlank message with
      | false => rfl
      | true =>
        have hlong := (h hblank).resolve_left hne
        omega
    · exact hnonblank
  · exact splitPart_nonblank part chunk hmem

theorem nonblank_iff (hmax : 1 ≤ reply.hardMaxMessages) :
    (∀ chunk ∈ render text reply, isBlank chunk = false) ↔
      (isBlank text = true → text = [] ∨ reply.maxQqMessageChars < text.length) := by
  constructor
  · intro h hblank
    by_contra hne
    obtain ⟨hne, hshort⟩ := not_or.mp hne
    have hchunks : chunksOf text reply = [text] := by
      rw [chunksOf, messagesOf_blank hblank hne]
      simp [splitPreservingStructure, Nat.not_lt.mp hshort, hne]
    have hrender : render text reply = [text] := by
      rw [render, hchunks]
      exact if_pos hmax
    have hfalse := h text (hrender ▸ List.mem_singleton.mpr rfl)
    rw [hblank] at hfalse
    cases hfalse
  · intro h chunk hchunk
    have hchunks := nonblank_chunk h
    unfold render at hchunk
    dsimp only at hchunk
    split at hchunk
    · exact hchunks chunk hchunk
    · rename_i hmany
      rcases List.mem_append.mp hchunk with hfirst | hlast
      · exact hchunks chunk (List.mem_of_mem_take hfirst)
      · rw [List.mem_singleton.mp hlast]
        refine isBlank_joinLines (fun hnil => ?_) fun line hline =>
          hchunks line (List.mem_of_mem_drop hline)
        have hlength := congrArg List.length hnil
        rw [List.length_drop, List.length_nil] at hlength
        omega

theorem length_render_le (hmax : 1 ≤ reply.hardMaxMessages) :
    (render text reply).length ≤ reply.hardMaxMessages := by
  unfold render
  dsimp only
  split
  · assumption
  · rw [List.length_append, List.length_singleton, List.length_take]
    omega

end Yuki.Outbound

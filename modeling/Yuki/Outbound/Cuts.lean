import Yuki.Outbound.Fences

/-! The chunks of one part of a message: what they keep of it, and how long they are. -/

namespace Yuki.Outbound

open Pieces

/-- A part of a message, and the chunks it becomes. -/
structure Cut where
  part : Text
  chunks : List Text

/-- The chunks of a block without the lines that they repeat. -/
def reassembled (block : Text) (chunks : List Text) : Text :=
  let opening := openingLine block
  let closing := closingLine block
  let inner (chunk : Text) := (chunk.drop (opening.length + 1)).take
    (chunk.length - opening.length - closing.length - 2)
  opening ++ (chunks.map inner).flatten ++ closing

namespace Cut

/-- The text of the chunks, with the repeated fence lines of a split code block removed. -/
def content (limit : Nat) (cut : Cut) : Text :=
  if isFencedBlock cut.part && limit < cut.part.length then reassembled cut.part cut.chunks
  else cut.chunks.flatten

/-- The opening and closing lines of a fenced block leave no room. -/
def roomless (limit : Nat) (cut : Cut) : Prop :=
  isFencedBlock cut.part = true ∧
    limit < (openingLine cut.part).length + (closingLine cut.part).length + 3

end Cut

/-- A part that begins like a fenced block and is none, longer than a message. -/
def stray (limit : Nat) (part : Text) : Bool :=
  startsWithFence part && !isFencedBlock part && decide (limit < part.length)

/-- No lines between the first and the last of the part, or lines that one chunk holds. -/
def Unsplit (limit : Nat) (part : Text) : Prop :=
  (splitlines part).length < 3 ∨ (joinLines (bodyLines part)).length ≤ available part limit

/-- The part fits in one message once its line breaks are single characters. -/
def Fits (limit : Nat) (part : Text) : Prop :=
  3 ≤ (splitlines part).length ∧ (reopened part (joinLines (bodyLines part))).length ≤ limit

variable {limit : Nat}

/-! The chunks of one part. -/

theorem splitPart_plain {part : Text} (h : startsWithFence part = false) :
    splitPart limit part = splitQqMessage part limit := by
  simp [splitPart, h]

theorem splitPart_short {part : Text} (h : startsWithFence part = true)
    (hshort : part.length ≤ limit ∨ (splitlines part).length < 3) :
    splitPart limit part = [part] := by
  rw [splitPart, if_pos h, splitFencedBlock, if_pos]
  simpa using hshort

theorem splitPart_lines {part : Text} (h : startsWithFence part = true)
    (hlong : limit < part.length) (hlines : 3 ≤ (splitlines part).length) :
    splitPart limit part =
      (splitBody (available part limit) [] 0 (bodyLines part)).map (reopened part) := by
  rw [splitPart, if_pos h, splitFencedBlock, if_neg]
  simp
  omega

theorem one_le_available (part : Text) : 1 ≤ available part limit :=
  Nat.le_max_left ..

theorem solid_inners {part : Text} :
    solid (splitBody (available part limit) [] 0 (bodyLines part)).flatten =
      solid (bodyLines part).flatten := by
  simpa using @solid_splitBody _ 0 [] (bodyLines part) (@one_le_available limit part)

theorem isBlank_reopened {part : Text} (h : startsWithFence part = true) (inner : Text) :
    isBlank (reopened part inner) = false := by
  rw [isBlank_eq_false_iff, solid_reopened]
  simp [solid_openingLine h]

/-- No chunk of a part is blank. -/
theorem splitPart_nonblank (part : Text) :
    ∀ chunk ∈ splitPart limit part, isBlank chunk = false := by
  intro chunk hchunk
  cases hfence : startsWithFence part with
  | false =>
    rw [splitPart_plain hfence] at hchunk
    exact (splitQqMessage_chunk part chunk hchunk).2
  | true =>
    by_cases hshort : part.length ≤ limit ∨ (splitlines part).length < 3
    · rw [splitPart_short hfence hshort] at hchunk
      exact List.mem_singleton.mp hchunk ▸ isBlank_of_startsWithFence hfence
    · rw [splitPart_lines hfence (by omega) (by omega)] at hchunk
      obtain ⟨inner, _, rfl⟩ := List.mem_map.mp hchunk
      exact isBlank_reopened hfence inner

theorem reassembled_map (block : Text) (inners : List Text) :
    reassembled block (inners.map (reopened block)) =
      openingLine block ++ inners.flatten ++ closingLine block := by
  have hinner : ∀ inner : Text,
      ((reopened block inner).drop ((openingLine block).length + 1)).take
        ((reopened block inner).length - (openingLine block).length -
          (closingLine block).length - 2) =
      inner := by
    intro inner
    have hdrop : (reopened block inner).drop ((openingLine block).length + 1) =
        inner ++ '\n' :: closingLine block := by
      rw [reopened, List.append_assoc, List.drop_length_add_append]
      rfl
    rw [hdrop, length_reopened]
    have hlength : (openingLine block).length + inner.length + (closingLine block).length + 2 -
        (openingLine block).length - (closingLine block).length - 2 = inner.length := by omega
    rw [hlength, List.take_left]
  unfold reassembled
  dsimp only
  rw [List.map_map]
  congr 3
  exact (List.map_congr_left fun inner _ => hinner inner).trans (List.map_id _)

/-! The content of one part. -/

/-- What a part becomes. -/
def cutOf (limit : Nat) (part : Text) : Cut :=
  ⟨part, splitPart limit part⟩

theorem solid_content_split {part : Text} (h : isFencedBlock part = true)
    (hlong : limit < part.length) :
    solid ((cutOf limit part).content limit) = solid part := by
  have hlines := three_le_lines h
  rw [Cut.content, if_pos (by simp [cutOf, h, hlong])]
  change solid (reassembled part (splitPart limit part)) = _
  rw [splitPart_lines (startsWithFence_of_isFencedBlock h) hlong hlines, reassembled_map,
    solid_append, solid_append, solid_inners, solid_part hlines]

theorem content_of_not_split {part : Text}
    (h : isFencedBlock part = false ∨ part.length ≤ limit) :
    (cutOf limit part).content limit = (splitPart limit part).flatten := by
  rw [Cut.content, if_neg]
  · rfl
  · rcases h with h | h
    · simp [cutOf, h]
    · simp [cutOf, Nat.not_lt.mpr h]

theorem stray_cases {part : Text} (h : startsWithFence part = true) (hlong : limit < part.length) :
    isFencedBlock part = true ∨ stray limit part = true := by
  cases hblock : isFencedBlock part with
  | true => exact Or.inl rfl
  | false => exact Or.inr (by simp [stray, h, hblock, hlong])

/-- Lines that one chunk holds are not split. -/
theorem splitPart_unsplit {part : Text} (h : startsWithFence part = true)
    (hlong : limit < part.length) (hlines : 3 ≤ (splitlines part).length)
    (hfits : (joinLines (bodyLines part)).length ≤ available part limit) :
    splitPart limit part = [reopened part (joinLines (bodyLines part))] := by
  have hone : splitBody (available part limit) [] 0 (bodyLines part) =
      [joinLines ([] ++ bodyLines part)] :=
    splitBody_of_fits rfl (by simpa using bodyLines_ne_nil hlines) (by simpa using hfits)
  rw [splitPart_lines h hlong hlines, hone]
  rfl

theorem solid_content {part : Text} (hlimit : 1 ≤ limit)
    (h : stray limit part = true → Unsplit limit part) :
    solid ((cutOf limit part).content limit) = solid part := by
  cases hfence : startsWithFence part with
  | false =>
    have hblock : isFencedBlock part = false := by
      cases hb : isFencedBlock part with
      | false => rfl
      | true => simp [startsWithFence_of_isFencedBlock hb] at hfence
    rw [content_of_not_split (Or.inl hblock), splitPart_plain hfence, solid_splitQqMessage hlimit]
  | true =>
    by_cases hlong : limit < part.length
    swap
    · rw [content_of_not_split (Or.inr (by omega)), splitPart_short hfence (Or.inl (by omega))]
      simp
    rcases stray_cases hfence hlong with hblock | hstray
    · exact solid_content_split hblock hlong
    · have hblock : isFencedBlock part = false := by
        simp only [stray, Bool.and_eq_true, Bool.not_eq_true'] at hstray
        exact hstray.1.2
      rw [content_of_not_split (Or.inl hblock)]
      by_cases hlines : (splitlines part).length < 3
      · rw [splitPart_short hfence (Or.inr hlines)]
        simp
      · have hfits := (h hstray).resolve_left hlines
        have hpart := @solid_part part (by omega)
        rw [splitPart_unsplit hfence hlong (by omega) hfits, List.flatten_singleton, solid_reopened,
          solid_joinLines, hpart]

theorem length_solid_flatten_map_reopened (part : Text) (inners : List Text) :
    (solid (inners.map (reopened part)).flatten).length =
      inners.length * ((solid (openingLine part)).length + (solid (closingLine part)).length) +
        (solid inners.flatten).length := by
  induction inners with
  | nil => simp
  | cons inner inners ih =>
    rw [List.map_cons, List.flatten_cons, List.flatten_cons, solid_append, solid_append,
      List.length_append, List.length_append, ih, solid_reopened, List.length_append,
      List.length_append, List.length_cons, Nat.succ_mul]
    omega

/-- A stray part whose lines are split repeats its first line. -/
theorem solid_content_lt {part : Text} (hstray : stray limit part = true)
    (h : ¬ Unsplit limit part) :
    (solid part).length < (solid ((cutOf limit part).content limit)).length := by
  have hparts := hstray
  simp only [stray, Bool.and_eq_true, Bool.not_eq_true', decide_eq_true_eq] at hparts
  obtain ⟨⟨hfence, hblock⟩, hlong⟩ := hparts
  simp only [Unsplit, not_or, Nat.not_lt, Nat.not_le] at h
  obtain ⟨hlines, hsplit⟩ := h
  have htwo : 2 ≤ (splitBody (available part limit) [] 0 (bodyLines part)).length :=
    two_le_length_splitBody (one_le_available part) rfl (Nat.zero_le _) hsplit
  have hopening := List.length_pos_of_ne_nil (solid_openingLine hfence)
  have hpart := congrArg List.length (solid_part hlines)
  rw [content_of_not_split (Or.inl hblock), splitPart_lines hfence hlong hlines,
    length_solid_flatten_map_reopened, solid_inners, hpart, List.length_append, List.length_append]
  have hmul := Nat.mul_le_mul_right
    ((solid (openingLine part)).length + (solid (closingLine part)).length) htwo
  omega

/-! The sizes of the chunks of one part. -/

theorem fits_unsplit {part : Text} (h : Fits limit part) : Unsplit limit part := by
  obtain ⟨hlines, hlength⟩ := h
  rw [length_reopened] at hlength
  exact Or.inr (by unfold available; omega)

theorem length_chunk_le {part : Text} (h : stray limit part = true → Fits limit part) :
    ∀ chunk ∈ splitPart limit part, chunk.length ≤ limit ∨ (cutOf limit part).roomless limit := by
  intro chunk hchunk
  cases hfence : startsWithFence part with
  | false =>
    rw [splitPart_plain hfence] at hchunk
    exact Or.inl (splitQqMessage_chunk part chunk hchunk).1
  | true =>
    by_cases hlong : limit < part.length
    swap
    · rw [splitPart_short hfence (Or.inl (by omega))] at hchunk
      exact Or.inl (List.mem_singleton.mp hchunk ▸ Nat.not_lt.mp hlong)
    rcases stray_cases hfence hlong with hblock | hstray
    · by_cases hroom : limit < (openingLine part).length + (closingLine part).length + 3
      · exact Or.inr ⟨hblock, hroom⟩
      · rw [splitPart_lines hfence hlong (three_le_lines hblock)] at hchunk
        obtain ⟨inner, hinner, rfl⟩ := List.mem_map.mp hchunk
        have hle : inner.length ≤ available part limit :=
          length_splitBody_le (Nat.zero_le _) (Nat.zero_le _) inner hinner
        unfold available at hle
        rw [length_reopened]
        omega
    · obtain ⟨hlines, hlength⟩ := h hstray
      have hfits := (fits_unsplit ⟨hlines, hlength⟩).resolve_left (by omega)
      rw [splitPart_unsplit hfence hlong hlines hfits] at hchunk
      exact Or.inl (List.mem_singleton.mp hchunk ▸ hlength)

/-- A stray part that is not split fits only if its one chunk does. -/
theorem fits_of_length {part : Text} (hstray : stray limit part = true) (h : Unsplit limit part)
    (hlength : ∀ chunk ∈ splitPart limit part,
      chunk.length ≤ limit ∨ (cutOf limit part).roomless limit) : Fits limit part := by
  simp only [stray, Bool.and_eq_true, Bool.not_eq_true', decide_eq_true_eq] at hstray
  obtain ⟨⟨hfence, hblock⟩, hlong⟩ := hstray
  have hroom : ¬ (cutOf limit part).roomless limit := fun hr => by
    have hpart : isFencedBlock part = true := hr.1
    rw [hblock] at hpart
    cases hpart
  by_cases hlines : (splitlines part).length < 3
  · rw [splitPart_short hfence (Or.inr hlines)] at hlength
    have hle := (hlength part (List.mem_singleton.mpr rfl)).resolve_right hroom
    omega
  · have hfits := h.resolve_left hlines
    rw [splitPart_unsplit hfence hlong (by omega) hfits] at hlength
    exact ⟨by omega, (hlength _ (List.mem_singleton.mpr rfl)).resolve_right hroom⟩

end Yuki.Outbound

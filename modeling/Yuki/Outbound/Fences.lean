import Yuki.Outbound.Blocks

/-! Fenced blocks, and the lines of a part that begins like one. -/

namespace Yuki.Outbound

open Pieces

theorem find_eq_some {pattern t : Text} {n : Nat} (h : find pattern t = some n) :
    ∃ before after, before.length = n ∧ t = before ++ (pattern ++ after) := by
  induction t generalizing n with
  | nil =>
    unfold find at h
    split at h
    · rename_i hempty
      cases h
      exact ⟨[], [], rfl, by simpa using (List.isEmpty_iff.mp hempty).symm⟩
    · cases h
  | cons c t ih =>
    unfold find at h
    split at h
    · rename_i hprefix
      obtain ⟨after, hafter⟩ := List.isPrefixOf_iff_prefix.mp hprefix
      cases h
      exact ⟨[], after, rfl, hafter.symm⟩
    · obtain ⟨m, hm, rfl⟩ := Option.map_eq_some_iff.mp h
      obtain ⟨before, after, rfl, rfl⟩ := ih hm
      exact ⟨c :: before, after, rfl, rfl⟩

/-- What follows the first line, if there is anything, follows a line feed. -/
theorem drop_line (t : Text) :
    t.drop ((t.takeWhile (· != '\n')).length + 1) = [] ∨
      t = t.takeWhile (· != '\n') ++ '\n' :: t.drop ((t.takeWhile (· != '\n')).length + 1) := by
  induction t with
  | nil => exact Or.inl rfl
  | cons c t ih =>
    by_cases hc : c = '\n'
    · exact Or.inr (by simp [hc])
    · rw [List.takeWhile_cons_of_pos (by simpa using hc), List.length_cons, List.drop_succ_cons]
      exact ih.imp_right (congrArg (c :: ·))

/-- A fenced block has an opening line, a body and a closing mark that begins a line. -/
theorem fencedBy_eq_some {mark t : Text} {n : Nat} (h : fencedBy mark t = some n) :
    ∃ opening body after, t = mark ++ opening ++ '\n' :: (body ++ '\n' :: (mark ++ after)) ∧
      n + after.length = t.length := by
  unfold fencedBy at h
  split at h
  swap
  · cases h
  rename_i hprefix
  obtain ⟨rest, rfl⟩ := List.isPrefixOf_iff_prefix.mp hprefix
  rw [List.drop_left] at h
  dsimp only at h
  rw [Nat.add_assoc, List.drop_length_add_append] at h
  obtain ⟨k, hk, rfl⟩ := Option.map_eq_some_iff.mp h
  obtain ⟨body, after, hlength, hfound⟩ := find_eq_some hk
  rcases drop_line rest with hnone | hline
  · rw [hnone] at hfound
    simp at hfound
  · rw [hfound] at hline
    refine ⟨rest.takeWhile (· != '\n'), body, after, ?_, ?_⟩
    · rw [List.append_assoc]
      exact congrArg (mark ++ ·) hline
    · have htotal := congrArg List.length hline
      simp only [List.length_append, List.length_cons] at htotal ⊢
      omega

/-- `_FENCED_BLOCK.fullmatch(part)`. -/
def isFencedBlock (part : Text) : Bool :=
  fencedBlock part == some part.length

theorem isFencedBlock_cases {block : Text} (h : isFencedBlock block = true) :
    ∃ mark opening body, (mark = backticks ∨ mark = tildes) ∧
      block = mark ++ opening ++ '\n' :: (body ++ '\n' :: mark) := by
  have hsome : fencedBlock block = some block.length := beq_iff_eq.mp h
  have hmark : ∃ mark, (mark = backticks ∨ mark = tildes) ∧
      fencedBy mark block = some block.length := by
    unfold fencedBlock at hsome
    rcases Option.or_eq_some_iff.mp hsome with hb | ⟨_, ht⟩
    · exact ⟨backticks, Or.inl rfl, hb⟩
    · exact ⟨tildes, Or.inr rfl, ht⟩
  obtain ⟨mark, hkind, hfenced⟩ := hmark
  obtain ⟨opening, body, after, hblock, hlength⟩ := fencedBy_eq_some hfenced
  have hafter : after = [] := List.eq_nil_of_length_eq_zero (by omega)
  rw [hafter, List.append_nil] at hblock
  exact ⟨mark, opening, body, hkind, hblock⟩

theorem startsWithFence_of_isFencedBlock {block : Text} (h : isFencedBlock block = true) :
    startsWithFence block = true := by
  obtain ⟨mark, opening, body, hmark, rfl⟩ := isFencedBlock_cases h
  rcases hmark with rfl | rfl <;> simp [startsWithFence]

theorem three_le_lines {block : Text} (h : isFencedBlock block = true) :
    3 ≤ (splitlines block).length := by
  obtain ⟨mark, opening, body, hmark, rfl⟩ := isFencedBlock_cases h
  have hone : (splitlines mark).length = 1 := by rcases hmark with rfl | rfl <;> decide
  have hbody := length_splitlines_newline body mark
  have hopening := length_splitlines_newline (mark ++ opening) (body ++ '\n' :: mark)
  omega

/-! The lines of a part that begins like a fenced block. -/

theorem startsWithFence_cons {part : Text} (h : startsWithFence part = true) :
    ∃ c cs, part = c :: cs ∧ isLineBreak c = false ∧ isSpace c = false := by
  rcases Bool.or_eq_true_iff.mp h with hmark | hmark
  · obtain ⟨rest, rfl⟩ := List.isPrefixOf_iff_prefix.mp hmark
    exact ⟨_, _, rfl, by decide, by decide⟩
  · obtain ⟨rest, rfl⟩ := List.isPrefixOf_iff_prefix.mp hmark
    exact ⟨_, _, rfl, by decide, by decide⟩

theorem isBlank_of_startsWithFence {part : Text} (h : startsWithFence part = true) :
    isBlank part = false := by
  obtain ⟨c, cs, rfl, _, hspace⟩ := startsWithFence_cons h
  simp [isBlank, hspace]

theorem solid_openingLine {part : Text} (h : startsWithFence part = true) :
    solid (openingLine part) ≠ [] := by
  obtain ⟨c, cs, rfl, hbreak, hspace⟩ := startsWithFence_cons h
  obtain ⟨line, lines, hlines⟩ := splitlines_cons hbreak cs
  simp [openingLine, hlines, solid, hspace]

theorem lines_eq {part : Text} (h : 3 ≤ (splitlines part).length) :
    splitlines part = openingLine part :: (bodyLines part ++ [closingLine part]) := by
  unfold openingLine bodyLines closingLine
  cases hl : splitlines part with
  | nil => simp [hl] at h
  | cons first rest =>
    have hrest : rest ≠ [] := fun hnil => by simp [hl, hnil] at h
    have hlast : (first :: rest).getLastD [] = rest.getLast hrest := by
      rw [List.getLastD_cons, List.getLastD_eq_getLast?, List.getLast?_eq_some_getLast hrest]
      rfl
    rw [hlast]
    exact congrArg (first :: ·) (List.dropLast_append_getLast hrest).symm

theorem bodyLines_ne_nil {part : Text} (h : 3 ≤ (splitlines part).length) :
    bodyLines part ≠ [] := by
  have hlength := congrArg List.length (lines_eq h)
  intro hnil
  rw [hnil] at hlength
  simp at hlength
  omega

theorem solid_part {part : Text} (h : 3 ≤ (splitlines part).length) :
    solid part = solid (openingLine part) ++ solid (bodyLines part).flatten ++
      solid (closingLine part) := by
  rw [← solid_splitlines part, lines_eq h]
  simp

theorem solid_reopened (part inner : Text) :
    solid (reopened part inner) = solid (openingLine part) ++ solid inner ++
      solid (closingLine part) := by
  simp [reopened]

theorem length_reopened (part inner : Text) :
    (reopened part inner).length =
      (openingLine part).length + inner.length + (closingLine part).length + 2 := by
  simp [reopened]
  omega

end Yuki.Outbound

import Yuki.Outbound.Content

/-! The chunks of a fenced block. -/

namespace Yuki.Outbound

open Pieces

variable {room len : Nat} {current lines : List Text} {line : Text}

/-! One step of the loop over the body lines. -/

theorem splitBody_long (h : room < line.length) :
    splitBody room current len (line :: lines) =
      (if current.isEmpty then [] else [joinLines current]) ++ blocks room line ++
        splitBody room [] (if current.isEmpty then len else 0) lines := by
  rw [splitBody]
  cases hc : current.isEmpty with
  | true => simp [h, hc]
  | false =>
    by_cases hfull : room < len + (line.length + 1)
    · simp [h, hfull]
    · omega

theorem splitBody_full (h : line.length ≤ room) (hc : current ≠ [])
    (hfull : room < len + (line.length + 1)) :
    splitBody room current len (line :: lines) =
      joinLines current :: splitBody room [line] (line.length + 1) lines := by
  have hempty : current.isEmpty = false := by simpa using hc
  rw [splitBody]
  simp [hempty, hfull, Nat.not_lt.mpr h]

theorem splitBody_fits (h : line.length ≤ room)
    (hfits : current = [] ∨ len + (line.length + 1) ≤ room) :
    splitBody room current len (line :: lines) =
      splitBody room (current ++ [line]) (len + (line.length + if current.isEmpty then 0 else 1))
        lines := by
  rw [splitBody]
  rcases hfits with rfl | hfits
  · simp [Nat.not_lt.mpr h]
  · cases hc : current.isEmpty with
    | true => simp [Nat.not_lt.mpr h]
    | false => simp [Nat.not_lt.mpr h, Nat.not_lt.mpr hfits, hc]

/-- A line is too long, or no longer fits beside the current lines, or joins them. -/
theorem splitBody_cases (room len : Nat) (current : List Text) (line : Text) :
    room < line.length ∨
      (line.length ≤ room ∧ current ≠ [] ∧ room < len + (line.length + 1)) ∨
      line.length ≤ room ∧ (current = [] ∨ len + (line.length + 1) ≤ room) := by
  by_cases hlong : room < line.length
  · exact Or.inl hlong
  · by_cases hc : current = []
    · exact Or.inr (Or.inr ⟨by omega, Or.inl hc⟩)
    · by_cases hfull : room < len + (line.length + 1)
      · exact Or.inr (Or.inl ⟨by omega, hc, hfull⟩)
      · exact Or.inr (Or.inr ⟨by omega, Or.inr (by omega)⟩)

/-! The whole loop. -/

theorem solid_splitBody (hroom : 1 ≤ room) :
    solid (splitBody room current len lines).flatten =
      solid (current.flatten ++ lines.flatten) := by
  induction lines generalizing current len with
  | nil => cases current <;> simp [splitBody, solid_joinLines]
  | cons line lines ih =>
    rcases splitBody_cases room len current line with hlong | ⟨hshort, hc, hfull⟩ | ⟨hshort, hfits⟩
    · rw [splitBody_long hlong, List.flatten_append, List.flatten_append, solid_append,
        solid_append, flatten_blocks hroom, ih]
      cases current <;> simp [solid_joinLines]
    · rw [splitBody_full hshort hc hfull, List.flatten_cons, solid_append, ih, solid_joinLines]
      simp
    · rw [splitBody_fits hshort hfits, ih]
      simp

theorem length_splitBody_le (hcurrent : (joinLines current).length ≤ room)
    (hlen : (joinLines current).length ≤ len) :
    ∀ inner ∈ splitBody room current len lines, inner.length ≤ room := by
  induction lines generalizing current len with
  | nil =>
    intro inner hinner
    unfold splitBody at hinner
    split at hinner
    · cases hinner
    · exact List.mem_singleton.mp hinner ▸ hcurrent
  | cons line lines ih =>
    rcases splitBody_cases room len current line with hlong | ⟨hshort, hc, hfull⟩ | ⟨hshort, hfits⟩
    · rw [splitBody_long hlong]
      intro inner hinner
      rcases List.mem_append.mp hinner with hinner | hinner
      · rcases List.mem_append.mp hinner with hinner | hinner
        · split at hinner
          · cases hinner
          · exact List.mem_singleton.mp hinner ▸ hcurrent
        · exact length_le_of_mem_blocks hinner
      · exact ih (Nat.zero_le _) (Nat.zero_le _) inner hinner
    · rw [splitBody_full hshort hc hfull]
      intro inner hinner
      rcases List.mem_cons.mp hinner with rfl | hinner
      · exact hcurrent
      · exact ih (by simpa [joinLines] using hshort) (by simp [joinLines]) inner hinner
    · rw [splitBody_fits hshort hfits]
      cases current with
      | nil => exact ih (by simpa [joinLines] using hshort) (by simp [joinLines])
      | cons first rest =>
        have hfits' : len + (line.length + 1) ≤ room := by simpa using hfits
        have hjoined := length_joinLines_concat (List.cons_ne_nil first rest) line
        exact ih (by omega) (by simp only [List.isEmpty_cons, Bool.false_eq_true, if_false]; omega)

theorem splitBody_ne_nil (hroom : 1 ≤ room) (h : current ≠ [] ∨ lines ≠ []) :
    splitBody room current len lines ≠ [] := by
  induction lines generalizing current len with
  | nil =>
    have hc : current ≠ [] := by simpa using h
    simpa [splitBody] using hc
  | cons line lines ih =>
    rcases splitBody_cases room len current line with hlong | ⟨hshort, hc, hfull⟩ | ⟨hshort, hfits⟩
    · have htwo := two_le_length_blocks hroom hlong
      have hblocks : blocks room line ≠ [] := fun hnil => by simp [hnil] at htwo
      rw [splitBody_long hlong]
      simp [hblocks]
    · rw [splitBody_full hshort hc hfull]
      exact List.cons_ne_nil _ _
    · rw [splitBody_fits hshort hfits]
      exact ih (Or.inl (by simp))

/-- Lines that fit together become one chunk. -/
theorem splitBody_of_fits (hlen : len = (joinLines current).length)
    (hne : current ++ lines ≠ []) (hfits : (joinLines (current ++ lines)).length ≤ room) :
    splitBody room current len lines = [joinLines (current ++ lines)] := by
  induction lines generalizing current len with
  | nil =>
    rw [List.append_nil] at hne ⊢
    simp [splitBody, hne]
  | cons line lines ih =>
    have happend : current ++ line :: lines = (current ++ [line]) ++ lines := by simp
    have hline : line.length ≤ room :=
      Nat.le_trans (length_joinLines_le (by simp)) hfits
    have hbefore : (joinLines (current ++ [line])).length ≤ room := by
      rw [happend] at hfits
      exact Nat.le_trans (length_joinLines_append_le _ _) hfits
    rw [happend] at hfits ⊢
    cases current with
    | nil =>
      rw [splitBody_fits hline (Or.inl rfl)]
      exact ih (by simp [hlen, joinLines]) (by simp) hfits
    | cons first rest =>
      have hjoined := length_joinLines_concat (List.cons_ne_nil first rest) line
      rw [splitBody_fits hline (Or.inr (by omega))]
      have hlen' : len + (line.length + if (first :: rest).isEmpty then 0 else 1) =
          (joinLines (first :: rest ++ [line])).length := by
        simp only [List.isEmpty_cons, Bool.false_eq_true, if_false]
        omega
      exact ih hlen' (by simp) hfits

/-- Lines that do not fit together become several chunks. -/
theorem two_le_length_splitBody (hroom : 1 ≤ room) (hlen : len = (joinLines current).length)
    (hcurrent : (joinLines current).length ≤ room)
    (hlong : room < (joinLines (current ++ lines)).length) :
    2 ≤ (splitBody room current len lines).length := by
  induction lines generalizing current len with
  | nil =>
    rw [List.append_nil] at hlong
    omega
  | cons line lines ih =>
    have happend : current ++ line :: lines = (current ++ [line]) ++ lines := by simp
    rcases splitBody_cases room len current line with hline | ⟨hshort, hc, hfull⟩ | ⟨hshort, hfits⟩
    · have htwo := two_le_length_blocks hroom hline
      rw [splitBody_long hline, List.length_append, List.length_append]
      omega
    · have hrest : splitBody room [line] (line.length + 1) lines ≠ [] :=
        splitBody_ne_nil hroom (Or.inl (List.cons_ne_nil line []))
      have hpos := List.length_pos_of_ne_nil hrest
      rw [splitBody_full hshort hc hfull, List.length_cons]
      omega
    · rw [happend] at hlong
      rw [splitBody_fits hshort hfits]
      cases current with
      | nil => exact ih (by simp [hlen, joinLines]) (by simpa [joinLines] using hshort) hlong
      | cons first rest =>
        have hfits' : len + (line.length + 1) ≤ room := by simpa using hfits
        have hjoined := length_joinLines_concat (List.cons_ne_nil first rest) line
        exact ih (by simp only [List.isEmpty_cons, Bool.false_eq_true, if_false]; omega) (by omega)
          hlong

end Yuki.Outbound

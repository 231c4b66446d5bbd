import Yuki.Outbound.Sections

/-! Dividing, joining and enclosing parts carry the mentions along. -/

namespace Yuki.Outbound

variable {message part : TransportMessage} {parts more : List TransportMessage}
  {m : TransportMention} {limit : Nat}

/-- A fallible step for each element succeeds for all of them. -/
theorem exists_mapM_ok {ε α β : Type} {f : α → Except ε β} {P : α → β → Prop} {xs : List α}
    (h : ∀ x ∈ xs, ∃ y, f x = .ok y ∧ P x y) :
    ∃ ys, xs.mapM f = .ok ys ∧ List.Forall₂ P xs ys := by
  induction xs with
  | nil => exact ⟨[], rfl, .nil⟩
  | cons x xs ih =>
    obtain ⟨y, hy, hp⟩ := h x List.mem_cons_self
    obtain ⟨ys, hys, hps⟩ := ih fun z hz => h z (List.mem_cons_of_mem _ hz)
    refine ⟨y :: ys, ?_, .cons hp hps⟩
    rw [List.mapM_cons, hy, hys]
    rfl

namespace Carries

theorem self (h : Placed 0 message.text.length message.mentions) : Carries message [message] :=
  ⟨fun part hpart => List.mem_singleton.mp hpart ▸ h, by simp⟩

/-- Parts that are divided further still carry the mentions. -/
theorem flatten {divided : List (List TransportMessage)} (h : Carries message parts)
    (hdivided : List.Forall₂ Carries parts divided) : Carries message divided.flatten := by
  have hall : (∀ part ∈ divided.flatten, Placed 0 part.text.length part.mentions) ∧
      divided.flatten.flatMap quoted = parts.flatMap quoted := by
    clear h
    induction hdivided with
    | nil => simp
    | cons hfirst _ ih =>
      rw [List.flatten_cons, List.flatMap_append, List.flatMap_cons, hfirst.quotes, ih.2]
      refine ⟨fun part hpart => ?_, rfl⟩
      rcases List.mem_append.mp hpart with hpart | hpart
      · exact hfirst.placed part hpart
      · exact ih.1 part hpart
  exact ⟨hall.1, hall.2.trans h.quotes⟩

end Carries

/-! `split_transport_message`. -/

theorem quoted_relocated {whole before : Text}
    (hplaced : ∀ part ∈ parts, Placed 0 part.text.length part.mentions)
    (hwhole : whole = before ++ parts.flatMap (·.text)) :
    parts.flatMap quoted = (relocated before.length parts).map fun m =>
      ({ m with textStart := 0, textEnd := 0 }, slice whole m.textStart m.textEnd) := by
  induction parts generalizing before with
  | nil => rfl
  | cons part parts ih =>
    rw [List.flatMap_cons] at hwhole
    have hrest := @ih (before ++ part.text) (fun p hp => hplaced p (List.mem_cons_of_mem _ hp))
      (by rw [hwhole, List.append_assoc])
    rw [List.length_append, Int.natCast_add] at hrest
    rw [List.flatMap_cons, hrest, relocated, List.map_append, List.map_map]
    congr 1
    refine List.map_congr_left fun m hm => ?_
    obtain ⟨hstart, hlt, hstop⟩ := (hplaced part List.mem_cons_self).mem_range hm
    refine Prod.ext rfl ?_
    change slice part.text m.textStart m.textEnd =
      slice whole (m.textStart + before.length) (m.textEnd + before.length)
    rw [hwhole, slice_shift _ _ hstart (Int.le_of_lt hlt) (by rw [List.length_append]; omega),
      slice_append _ _ hstart (Int.le_of_lt hlt) hstop]

theorem splitTransport_carries (hlimit : 1 ≤ limit)
    (hms : Placed 0 part.text.length part.mentions)
    (hfits : ∀ m ∈ part.mentions, m.textEnd - m.textStart ≤ limit) :
    ∃ parts, splitTransport limit part = .ok parts ∧
      (Carries part parts ∧ parts.flatMap (·.text) = part.text ∧ parts ≠ []) := by
  by_cases hshort : part.text.length ≤ limit
  · refine ⟨[part], ?_, .self hms, by simp, by simp⟩
    rw [splitTransport, splitTransportMessage, if_pos hshort]
    rfl
  · rcases splitLoop_spec hlimit hlimit part.text.length true (by simp) (Int.le_refl 0)
        (Int.natCast_nonneg _) hms (by omega) with ⟨parts, hrun, hparts⟩ | ⟨⟨m, hm, hlong⟩, _⟩
    · have htext : parts.flatMap (·.text) = part.text := by simpa using hparts.texts
      refine ⟨parts, ?_, ⟨hparts.placed, ?_⟩, htext, fun hnil => ?_⟩
      · rw [splitTransport, splitTransportMessage, if_neg hshort]
        simp only [Option.filter_none, Option.getD_none]
        rw [hrun]
        rfl
      · have hquotes := @quoted_relocated parts part.text [] hparts.placed
          (by simpa using htext.symm)
        rw [hquotes]
        exact congrArg _ hparts.mentions
      · rw [hnil, List.flatMap_nil] at htext
        rw [← htext] at hshort
        exact hshort (Nat.zero_le _)
    · have hle := hfits m hm
      unfold TooLong at hlong
      split at hlong <;> omega

/-! `_join_messages`. -/

/-- What a part at an offset quotes of the whole. -/
theorem quoted_shift {whole before after : Text}
    (hplaced : Placed 0 part.text.length part.mentions)
    (hwhole : whole = before ++ (part.text ++ after)) :
    (part.mentions.map (·.shift before.length)).map (fun m =>
      (({ m with textStart := 0, textEnd := 0 } : TransportMention),
        slice whole m.textStart m.textEnd)) = quoted part := by
  rw [List.map_map]
  refine List.map_congr_left fun m hm => Prod.ext rfl ?_
  obtain ⟨hstart, hlt, hstop⟩ := hplaced.mem_range hm
  change slice whole (m.textStart + before.length) (m.textEnd + before.length) =
    slice part.text m.textStart m.textEnd
  rw [hwhole, slice_shift _ _ hstart (Int.le_of_lt hlt) (by rw [List.length_append]; omega),
    slice_append _ _ hstart (Int.le_of_lt hlt) hstop]

theorem Placed.append {lo mid hi : Int} {ms ms' : List TransportMention} (h : Placed lo mid ms)
    (h' : Placed mid hi ms') : Placed lo hi (ms ++ ms') := by
  induction h with
  | nil le => exact h'.mono le (Int.le_refl hi)
  | cons after nonempty _ ih => exact .cons after nonempty (ih h')

theorem joinMentions_spec {whole before after : Text}
    (hplaced : ∀ part ∈ parts, Placed 0 part.text.length part.mentions)
    (hwhole : whole = before ++ (joinLines (parts.map (·.text)) ++ after)) :
    Placed before.length (before.length + (joinLines (parts.map (·.text))).length)
        (joinMentions before.length parts) ∧
      (joinMentions before.length parts).map (fun m =>
        (({ m with textStart := 0, textEnd := 0 } : TransportMention),
          slice whole m.textStart m.textEnd)) = parts.flatMap quoted := by
  induction parts generalizing before with
  | nil => exact ⟨.nil (by simp [joinLines]), rfl⟩
  | cons part parts ih =>
    have hfirst := hplaced part List.mem_cons_self
    have hshift := hfirst.shift before.length
    rw [Int.zero_add, Int.add_comm] at hshift
    have hrest := fun p hp => hplaced p (List.mem_cons_of_mem _ hp)
    rw [joinMentions, List.map_append, List.flatMap_cons]
    cases parts with
    | nil =>
      rw [List.map_singleton, joinLines] at hwhole ⊢
      rw [quoted_shift hfirst hwhole]
      simpa [joinMentions] using hshift
    | cons next parts =>
      have hjoin : joinLines ((part :: next :: parts).map (·.text)) =
          part.text ++ '\n' :: joinLines ((next :: parts).map (·.text)) := rfl
      rw [hjoin] at hwhole ⊢
      have hlength : ((before ++ part.text ++ ['\n']).length : Int) =
          before.length + part.text.length + 1 := by
        simp only [List.length_append, List.length_singleton]
        omega
      have hwhole' : whole = (before ++ part.text ++ ['\n']) ++
          (joinLines ((next :: parts).map (·.text)) ++ after) := by
        rw [hwhole]
        simp
      obtain ⟨hp, hq⟩ := ih hrest hwhole'
      rw [hlength] at hp hq
      have hpart : whole = before ++ (part.text ++
          ('\n' :: joinLines ((next :: parts).map (·.text)) ++ after)) := by
        rw [hwhole, List.append_assoc]
      rw [quoted_shift hfirst hpart, hq]
      refine ⟨(hshift.mono (Int.le_refl _) (by omega)).append
        (hp.mono (Int.le_refl _) ?_), rfl⟩
      rw [List.length_append, List.length_cons]
      omega

theorem joinMessages_spec
    (hplaced : ∀ part ∈ parts, Placed 0 part.text.length part.mentions) :
    Placed 0 (joinMessages parts).text.length (joinMessages parts).mentions ∧
      quoted (joinMessages parts) = parts.flatMap quoted ∧
      solid (joinMessages parts).text = solid (parts.flatMap (·.text)) := by
  obtain ⟨hp, hq⟩ := @joinMentions_spec parts (joinMessages parts).text [] [] hplaced
    (by simp [joinMessages])
  rw [List.length_nil, Int.natCast_zero, Int.zero_add] at hp
  refine ⟨hp, hq, ?_⟩
  rw [List.flatMap_def]
  exact solid_joinLines _

/-! The chunks of a code block. -/

theorem quoted_enclosed (opening closing : Text)
    (h : Placed 0 part.text.length part.mentions) :
    Placed 0 (enclosed opening closing part).text.length (enclosed opening closing part).mentions ∧
      quoted (enclosed opening closing part) = quoted part := by
  have hshift := h.shift opening.length
  have htext : (enclosed opening closing part).text = opening ++ (part.text ++ closing) :=
    List.append_assoc ..
  refine ⟨hshift.mono (by omega) ?_, quoted_shift h htext⟩
  simp only [enclosed, List.length_append]
  omega

/-- The chunks of a block carry what the parts of its body carry. -/
theorem Carries.enclosed {block body : TransportMessage} (opening closing : Text)
    (h : Carries body parts) (hbody : quoted body = quoted block) :
    Carries block (parts.map (enclosed opening closing)) := by
  refine ⟨fun part hpart => ?_, ?_⟩
  · obtain ⟨inner, hinner, rfl⟩ := List.mem_map.mp hpart
    exact (quoted_enclosed opening closing (h.placed inner hinner)).1
  · rw [List.flatMap_map, ← hbody, ← h.quotes]
    exact List.flatMap_congr fun inner hinner =>
      (quoted_enclosed opening closing (h.placed inner hinner)).2

end Yuki.Outbound

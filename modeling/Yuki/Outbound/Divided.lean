import Yuki.Outbound.CodeLines
import Yuki.Outbound.RenderedMessage

/-! Sections whose mentions are each whole in one span are cut exactly at the spans. -/

namespace Yuki.Outbound

open Pieces

variable {message part : TransportMessage} {text : Text} {spans : List Span}
  {ms : List TransportMention} {lo hi : Int} {a b limit room : Nat}

/-- No span waits where each mention lies in one of them. -/
theorem atomicSpans_of_housed (hcov : Covering text a b spans) (hms : Placed lo hi ms)
    (hhoused : Housed ms spans) : atomicSpans ms none spans = spans := by
  induction hcov generalizing ms lo with
  | nil _ _ => rfl
  | @cons a b span spans before within blank rest ih =>
    have hends := hms.dropWhile_endsBy (a := span.2)
    obtain ⟨mid, hrest⟩ := hms.dropWhile (p := endsBy span.2)
    have htail := (hhoused.of_subset fun m hm => (List.dropWhile_suffix _).subset hm).tail hends
    have hspans := ih hrest htail
    unfold atomicSpans
    dsimp only [Option.getD_none]
    cases hd : ms.dropWhile (endsBy span.2) with
    | nil =>
      rw [hd] at hspans
      dsimp only
      rw [hspans]
    | cons m more =>
      rw [hd] at hspans htail
      obtain ⟨span', hspan', hstart, _⟩ := htail m List.mem_cons_self
      have hrange := rest.mem_range hspan'
      dsimp only
      rw [if_neg (by simp only [startsBefore, decide_eq_true_eq]; omega), hspans]

/-- The spans that are no longer than the room. -/
def within (room : Nat) (spans : List Span) : List Span :=
  spans.filter fun span => decide (span.2 - span.1 ≤ room)

theorem mem_within {span : Span} :
    span ∈ within room spans ↔ span ∈ spans ∧ span.2 - span.1 ≤ room := by
  simp [within]

theorem housed_of_within (h : Housed ms (within room spans)) : Housed ms spans := fun m hm => by
  obtain ⟨span, hspan, hin⟩ := h m hm
  exact ⟨span, (mem_within.mp hspan).1, hin⟩

/-- A section that is longer than the room has no mention. -/
theorem sectionsAt_within (hcov : Covering message.text a b spans) (hb : b ≤ message.text.length)
    (hms : Placed lo hi ms) (hhoused : Housed ms (within room spans)) :
    ∀ part ∈ sectionsAt message ms spans, part.text.length ≤ room ∨ part.mentions = [] := by
  induction hcov generalizing ms lo with
  | nil _ _ => simp [sectionsAt]
  | @cons a b span spans before hspan blank rest ih =>
    have hbehind := hms.dropWhile_startsBefore (a := span.2)
    obtain ⟨mid, hpending⟩ := hms.dropWhile (p := startsBefore span.2)
    have hsub : ∀ m ∈ ms.dropWhile (startsBefore span.2), m ∈ ms := fun m hm =>
      (List.dropWhile_suffix _).subset hm
    intro part hpart
    rcases List.mem_cons.mp hpart with rfl | hpart
    · cases htaken : ms.takeWhile (startsBefore span.2) with
      | nil => exact Or.inr rfl
      | cons m more =>
        have hm : m ∈ ms.takeWhile (startsBefore span.2) := htaken ▸ List.mem_cons_self
        have hstart : m.textStart < (span.2 : Int) := by
          simpa [startsBefore] using List.mem_takeWhile_imp hm
        obtain ⟨span', hspan', hfirst, _⟩ := hhoused m ((List.takeWhile_prefix _).subset hm)
        obtain ⟨hmem, hshort⟩ := mem_within.mp hspan'
        rcases List.mem_cons.mp hmem with rfl | hmem
        · refine Or.inl ?_
          have hstop := rest.le
          dsimp only
          rw [length_textAt hspan (by omega)]
          exact hshort
        · have hrange := rest.mem_range hmem
          omega
    · refine ih hb hpending (fun m hm => ?_) part hpart
      obtain ⟨span', hspan', hin⟩ := hhoused m (hsub m hm)
      obtain ⟨hmem, hshort⟩ := mem_within.mp hspan'
      rcases List.mem_cons.mp hmem with rfl | hmem
      · have hstart := hbehind m hm
        have hrange := hpending.mem_range hm
        omega
      · exact ⟨span', mem_within.mpr ⟨hmem, hshort⟩, hin⟩

/-- What lies within a line lies within the group of the line. -/
theorem exists_group {group : Span} {lines : List Span} {x y : Int} (hgroup : group.1 ≤ group.2)
    (hcov : Covering text group.2 b lines)
    (h : ∃ span ∈ within room (group :: lines), (span.1 : Int) ≤ x ∧ y ≤ (span.2 : Int)) :
    ∃ span ∈ within room (groupSpans room (some group) lines),
      (span.1 : Int) ≤ x ∧ y ≤ (span.2 : Int) := by
  induction lines generalizing group with
  | nil => exact h
  | cons line lines ih =>
    obtain ⟨span, hspan, hstart, hstop⟩ := h
    obtain ⟨hmem, hshort⟩ := mem_within.mp hspan
    cases hcov with
    | cons before hline blank rest =>
      unfold groupSpans
      split
      · rename_i hfits
        have hjoined : (group.1, line.2) ∈ within room ((group.1, line.2) :: lines) :=
          mem_within.mpr ⟨List.mem_cons_self, hfits⟩
        refine @ih (group.1, line.2) (by dsimp only; omega) rest ?_
        rcases List.mem_cons.mp hmem with rfl | hmem
        · exact ⟨_, hjoined, hstart, by dsimp only; omega⟩
        · rcases List.mem_cons.mp hmem with rfl | hmem
          · exact ⟨_, hjoined, by dsimp only; omega, hstop⟩
          · exact ⟨span, mem_within.mpr ⟨List.mem_cons_of_mem _ hmem, hshort⟩, hstart, hstop⟩
      · rcases List.mem_cons.mp hmem with rfl | hmem
        · exact ⟨span, mem_within.mpr ⟨List.mem_cons_self, hshort⟩, hstart, hstop⟩
        · obtain ⟨group', hgroup', hin⟩ := ih hline rest ⟨span, mem_within.mpr ⟨hmem, hshort⟩,
            hstart, hstop⟩
          obtain ⟨hmem', hshort'⟩ := mem_within.mp hgroup'
          exact ⟨group', mem_within.mpr ⟨List.mem_cons_of_mem _ hmem', hshort'⟩, hin⟩

theorem housed_codeGroups {body : TransportMessage}
    (h : Housed ms (within room (lineSpans 0 (splitlinesKeep body.text)))) :
    Housed ms (within room (codeGroups room body)) := by
  have hcov := covering_lineSpans (Nat.zero_le body.text.length)
    (flatten_splitlinesKeep body.text).symm
  unfold codeGroups
  cases hl : lineSpans 0 (splitlinesKeep body.text) with
  | nil =>
    rw [hl] at h
    exact h
  | cons line lines =>
    rw [hl] at hcov h
    cases hcov with
    | cons before hline blank rest => exact fun m hm => exists_group hline rest (h m hm)

/-! Division between characters. -/

/-- Where there are no mentions, a long text is cut into blocks. -/
theorem splitLoop_unmentioned (hlimit : 1 ≤ limit) {fuel start : Nat} {first : Bool}
    (hfuel : message.text.length ≤ start + fuel) :
    ∃ parts, splitLoop message limit limit fuel first start [] = some (.ok parts) ∧
      parts.map (·.text) = blocks limit (message.text.drop start) := by
  induction fuel generalizing start first with
  | zero =>
    refine ⟨[], if_neg (by omega), ?_⟩
    rw [List.drop_eq_nil_of_le (by omega), blocks_nil hlimit]
    rfl
  | succ fuel ih =>
    unfold splitLoop
    by_cases hlt : start < message.text.length
    · obtain ⟨stop, hstop⟩ : ∃ stop, stop = min (start + limit) message.text.length := ⟨_, rfl⟩
      have hcut : min ((start : Int) + ((if first then limit else limit : Nat) : Int))
          message.text.length = stop := by
        rw [ite_self, hstop]
        omega
      obtain ⟨rest, hrest, htexts⟩ := @ih stop false (by omega)
      have hne : message.text.drop start ≠ [] := by
        refine List.ne_nil_of_length_pos ?_
        rw [List.length_drop]
        omega
      have hpiece : slice message.text start stop = (message.text.drop start).take limit := by
        rw [slice_of_range (by omega) (by omega)]
        by_cases hall : start + limit ≤ message.text.length
        · rw [show stop - start = limit by omega]
        · rw [List.take_of_length_le (by rw [List.length_drop]; omega),
            List.take_of_length_le (by rw [List.length_drop]; omega)]
      have hbehind : (message.text.drop start).drop limit = message.text.drop stop := by
        rw [List.drop_drop]
        by_cases hall : start + limit ≤ message.text.length
        · rw [show stop = start + limit by omega]
        · rw [List.drop_eq_nil_of_le (by omega), List.drop_eq_nil_of_le (by omega)]
      rw [if_pos (by omega)]
      dsimp only
      rw [hcut, partEnd]
      dsimp only
      rw [hrest]
      refine ⟨_, rfl, ?_⟩
      rw [List.map_cons, htexts, blocks_cons hlimit hne, hbehind]
      exact congrArg (· :: _) hpiece
    · refine ⟨[], if_neg (by omega), ?_⟩
      rw [List.drop_eq_nil_of_le (by omega), blocks_nil hlimit]
      rfl

theorem splitTransport_texts (hlimit : 1 ≤ limit)
    (h : part.text.length ≤ limit ∨ part.mentions = []) :
    ∃ parts, splitTransport limit part = .ok parts ∧ parts.map (·.text) = bounded limit part.text := by
  by_cases hshort : part.text.length ≤ limit
  · refine ⟨[part], ?_, ?_⟩
    · rw [splitTransport, splitTransportMessage, if_pos hshort]
      rfl
    · rw [bounded, if_pos hshort]
      rfl
  · have hnone := h.resolve_left hshort
    obtain ⟨parts, hrun, htexts⟩ := @splitLoop_unmentioned part limit hlimit part.text.length 0 true
      (by omega)
    refine ⟨parts, ?_, ?_⟩
    · rw [splitTransport, splitTransportMessage, if_neg hshort, hnone]
      simp only [Option.filter_none, Option.getD_none]
      rw [Int.natCast_zero] at hrun
      rw [hrun]
      rfl
    · rw [bounded, if_neg hshort, htexts]
      rfl

/-- The divided sections of a part, where each cut is one of the plain path. -/
theorem divided_texts (hlimit : 1 ≤ limit)
    (hcov : Covering message.text 0 message.text.length spans)
    (hms : Placed 0 message.text.length message.mentions)
    (hhoused : Housed message.mentions (within limit spans)) :
    ∃ divided, (sourceSections message spans).mapM (splitTransport limit) = .ok divided ∧
      divided.flatten.map (·.text) =
        spans.flatMap fun span => bounded limit (textAt message.text span) := by
  have hall := housed_of_within hhoused
  have htexts := (sectionsAt_spec hcov (Nat.le_refl _) hms hall).2.2
  rw [sourceSections, atomicSpans_of_housed hcov hms hall]
  obtain ⟨divided, hrun, hparts⟩ := exists_mapM_ok fun part hpart => splitTransport_texts hlimit
    (sectionsAt_within hcov (Nat.le_refl _) hms hhoused part hpart)
  refine ⟨divided, hrun, ?_⟩
  rw [← List.flatMap_map (f := textAt message.text), ← htexts, List.flatMap_map]
  clear hrun htexts
  generalize sectionsAt message message.mentions spans = sections at hparts ⊢
  induction hparts with
  | nil => rfl
  | cons hfirst _ ih => rw [List.flatten_cons, List.map_append, hfirst, ih, List.flatMap_cons]

end Yuki.Outbound

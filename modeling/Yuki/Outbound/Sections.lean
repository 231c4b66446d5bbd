import Mathlib.Data.List.TakeWhile
import Yuki.Outbound.Coverage

/-! The sections of a message carry its mentions where its spans hold them. -/

namespace Yuki.Outbound

variable {message part : TransportMessage} {text : Text} {spans : List Span} {span : Span}
  {ms taken pending : List TransportMention} {m : TransportMention} {lo hi : Int} {a b limit : Nat}

/-- Every mention lies in one of the spans. -/
def Housed (ms : List TransportMention) (spans : List Span) : Prop :=
  ∀ m ∈ ms, ∃ span ∈ spans, (span.1 : Int) ≤ m.textStart ∧ m.textEnd ≤ (span.2 : Int)

instance (ms : List TransportMention) (spans : List Span) : Decidable (Housed ms spans) :=
  inferInstanceAs (Decidable (∀ m ∈ ms, ∃ span ∈ spans, _ ∧ _))

/-- The mentions of a message, and the text that each selects. -/
def quoted (message : TransportMessage) : List (TransportMention × Text) :=
  message.mentions.map fun m =>
    ({ m with textStart := 0, textEnd := 0 }, slice message.text m.textStart m.textEnd)

/-- Each mention of the message stands in one of the parts, in order, and selects its text. -/
structure Carries (message : TransportMessage) (parts : List TransportMessage) : Prop where
  placed : ∀ part ∈ parts, Placed 0 part.text.length part.mentions
  quotes : parts.flatMap quoted = quoted message

/-! Placed mentions. -/

theorem Placed.of_append (h : Placed lo hi (taken ++ pending)) :
    ∃ mid, Placed lo mid taken ∧ Placed mid hi pending := by
  induction taken generalizing lo with
  | nil => exact ⟨lo, .nil (Int.le_refl lo), h⟩
  | cons m taken ih =>
    cases h with
    | cons after nonempty rest =>
      obtain ⟨mid, htaken, hpending⟩ := ih rest
      exact ⟨mid, .cons after nonempty htaken, hpending⟩

theorem Placed.within {x y : Int} (h : Placed lo hi ms) (hxy : x ≤ y)
    (hin : ∀ m ∈ ms, x ≤ m.textStart ∧ m.textEnd ≤ y) : Placed x y ms := by
  induction h generalizing x with
  | nil _ => exact .nil hxy
  | @cons lo hi m ms after nonempty rest ih =>
    obtain ⟨hstart, hstop⟩ := hin m List.mem_cons_self
    refine .cons hstart nonempty (ih hstop fun m' hm' => ?_)
    exact ⟨(rest.mem_range hm').1, (hin m' (List.mem_cons_of_mem _ hm')).2⟩

/-- Once a mention starts behind a place, so do those after it. -/
theorem Placed.dropWhile_startsBefore (h : Placed lo hi ms) :
    ∀ m ∈ ms.dropWhile (startsBefore a), (a : Int) ≤ m.textStart := by
  induction h with
  | nil _ => simp
  | @cons lo hi m ms after nonempty rest ih =>
    by_cases hm : startsBefore a m = true
    · rw [List.dropWhile_cons_of_pos hm]
      exact ih
    · rw [List.dropWhile_cons_of_neg hm]
      have hstart : (a : Int) ≤ m.textStart := by simpa [startsBefore] using hm
      intro m' hm'
      rcases List.mem_cons.mp hm' with rfl | hm'
      · exact hstart
      · have hrange := rest.mem_range hm'
        omega

/-- Once a mention ends behind a place, so do those after it. -/
theorem Placed.dropWhile_endsBy (h : Placed lo hi ms) :
    ∀ m ∈ ms.dropWhile (endsBy a), (a : Int) < m.textEnd := by
  induction h with
  | nil _ => simp
  | @cons lo hi m ms after nonempty rest ih =>
    by_cases hm : endsBy a m = true
    · rw [List.dropWhile_cons_of_pos hm]
      exact ih
    · rw [List.dropWhile_cons_of_neg hm]
      have hstop : (a : Int) < m.textEnd := by simpa [endsBy] using hm
      intro m' hm'
      rcases List.mem_cons.mp hm' with rfl | hm'
      · exact hstop
      · have hrange := rest.mem_range hm'
        omega

theorem Placed.dropWhile {p : TransportMention → Bool} (h : Placed lo hi ms) :
    ∃ mid, Placed mid hi (ms.dropWhile p) := by
  rw [← List.takeWhile_append_dropWhile (p := p) (l := ms)] at h
  obtain ⟨mid, _, hrest⟩ := h.of_append
  exact ⟨mid, hrest⟩

/-! Spans. -/

theorem Covering.mem_range (h : Covering text a b spans) (hspan : span ∈ spans) :
    a ≤ span.1 ∧ span.1 ≤ span.2 ∧ span.2 ≤ b := by
  induction h with
  | nil _ _ => cases hspan
  | cons before within _ rest ih =>
    rcases List.mem_cons.mp hspan with rfl | hspan
    · exact ⟨before, within, rest.le⟩
    · have hrest := ih hspan
      omega

theorem Housed.of_subset (h : Housed ms spans) (hsub : ∀ m ∈ taken, m ∈ ms) : Housed taken spans :=
  fun m hm => h m (hsub m hm)

/-- Mentions that end behind the first span lie in the others. -/
theorem Housed.tail (h : Housed ms (span :: spans)) (hend : ∀ m ∈ ms, (span.2 : Int) < m.textEnd) :
    Housed ms spans := by
  intro m hm
  obtain ⟨span', hspan', hstart, hstop⟩ := h m hm
  rcases List.mem_cons.mp hspan' with rfl | hspan'
  · have hlt := hend m hm
    omega
  · exact ⟨span', hspan', hstart, hstop⟩

/-- Joined spans that hold every mention still cover the text. -/
theorem covering_atomicSpans {pendingStart : Option Nat} (hcov : Covering text a b spans)
    (hms : Placed lo hi ms)
    (hpending : ∀ p, pendingStart = some p → p ≤ a ∧ ms ≠ [])
    (hhoused : Housed ms (atomicSpans ms pendingStart spans)) :
    Covering text (pendingStart.getD a) b (atomicSpans ms pendingStart spans) := by
  induction hcov generalizing ms lo pendingStart with
  | @nil a b le blank =>
    cases pendingStart with
    | none => exact .nil le blank
    | some p =>
      obtain ⟨m, hm⟩ := List.exists_mem_of_ne_nil ms (hpending p rfl).2
      obtain ⟨span, hspan, _⟩ := hhoused m hm
      cases hspan
  | @cons a b span spans before within blank rest ih =>
    obtain ⟨start, hstart⟩ : ∃ start, start = pendingStart.getD span.1 := ⟨_, rfl⟩
    have hle : start ≤ span.2 ∧ pendingStart.getD a ≤ start ∧
        isBlank (textAt text (pendingStart.getD a, start)) = true := by
      cases pendingStart with
      | none =>
        rw [hstart]
        exact ⟨within, before, blank⟩
      | some p =>
        have hp := (hpending p rfl).1
        rw [hstart]
        exact ⟨by dsimp only [Option.getD_some]; omega, Nat.le_refl _, by simp [isBlank]⟩
    have hends := hms.dropWhile_endsBy (a := span.2)
    obtain ⟨mid, hrest⟩ := hms.dropWhile (p := endsBy span.2)
    have hsub : ∀ m ∈ ms.dropWhile (endsBy span.2), m ∈ ms := fun m hm =>
      (List.dropWhile_suffix _).subset hm
    unfold atomicSpans at hhoused ⊢
    dsimp only at hhoused ⊢
    rw [← hstart] at hhoused ⊢
    cases hd : ms.dropWhile (endsBy span.2) with
    | nil =>
      rw [hd] at hhoused hrest
      dsimp only at hhoused ⊢
      have hcovered := @ih [] mid none hrest (by simp) fun m hm => by cases hm
      exact .cons hle.2.1 hle.1 hle.2.2 hcovered
    | cons m more =>
      rw [hd] at hhoused hrest hends hsub
      dsimp only at hhoused ⊢
      split
      · rename_i hbefore
        rw [if_pos hbefore] at hhoused
        have hcovered := @ih (m :: more) mid (some start) hrest
          (fun p hp => by cases hp; exact ⟨hle.1, by simp⟩) (hhoused.of_subset hsub)
        exact hcovered.extend hle.2.1 hle.2.2
      · rename_i hbefore
        rw [if_neg hbefore] at hhoused
        have hcovered := @ih (m :: more) mid none hrest (by simp)
          ((hhoused.of_subset hsub).tail hends)
        exact .cons hle.2.1 hle.1 hle.2.2 hcovered

/-! Slices of a text at a span. -/

theorem slice_eq_textAt {x y : Nat} (hxy : x ≤ y) (hy : y ≤ text.length) :
    slice text x y = textAt text (x, y) := by
  rw [slice_of_range hxy hy, textAt, List.drop_take]

theorem slice_textAt {x y : Int} (hspan : span.2 ≤ text.length) (hx : (span.1 : Int) ≤ x)
    (hxy : x ≤ y) (hy : y ≤ span.2) :
    slice (textAt text span) (x + -span.1) (y + -span.1) = slice text x y := by
  obtain ⟨s, e⟩ := span
  lift x to Nat using by omega
  lift y to Nat using by omega
  dsimp only at hspan hx hy ⊢
  have hlength := @length_textAt text s e (by omega) hspan
  rw [show (x : Int) + -(s : Int) = ((x - s : Nat) : Int) by omega,
    show (y : Int) + -(s : Int) = ((y - s : Nat) : Int) by omega,
    slice_eq_textAt (by omega) (by omega), slice_eq_textAt (by omega) (by omega)]
  have htake := @take_textAt text s y e (by omega) (by omega) hspan
  have hdrop := @drop_textAt text s x y (by omega) (by omega) (by omega)
  rw [← hdrop, ← htake]
  rfl

/-- What one section takes of the mentions. -/
theorem quoted_section (hspan : span.2 ≤ message.text.length) (hms : Placed span.1 span.2 ms) :
    quoted { message with
        text := textAt message.text span
        mentions := ms.map (·.shift (-span.1))
        replyReference := none } =
      ms.map fun m =>
        ({ m with textStart := 0, textEnd := 0 }, slice message.text m.textStart m.textEnd) := by
  unfold quoted
  rw [List.map_map]
  refine List.map_congr_left fun m hm => ?_
  obtain ⟨hstart, hlt, hstop⟩ := hms.mem_range hm
  exact Prod.ext rfl (slice_textAt hspan hstart (Int.le_of_lt hlt) hstop)

theorem sectionsAt_spec (hcov : Covering message.text a b spans) (hb : b ≤ message.text.length)
    (hms : Placed lo hi ms) (hhoused : Housed ms spans) :
    (∀ part ∈ sectionsAt message ms spans, Placed 0 part.text.length part.mentions) ∧
      (sectionsAt message ms spans).flatMap quoted = (ms.map fun m =>
        ({ m with textStart := 0, textEnd := 0 }, slice message.text m.textStart m.textEnd)) ∧
      (sectionsAt message ms spans).map (·.text) = spans.map (textAt message.text) := by
  induction hcov generalizing ms lo with
  | nil _ _ =>
    have hnone : ms = [] := List.eq_nil_iff_forall_not_mem.mpr fun m hm => by
      obtain ⟨span, hspan, _⟩ := hhoused m hm
      cases hspan
    simp [sectionsAt, hnone]
  | @cons a b span spans before within blank rest ih =>
    have hspan : span.2 ≤ message.text.length := Nat.le_trans rest.le hb
    have hsplit := List.takeWhile_append_dropWhile (p := startsBefore span.2) (l := ms)
    have hbehind := hms.dropWhile_startsBefore (a := span.2)
    obtain ⟨mid, htaken, hpending⟩ := (hsplit ▸ hms).of_append
    have htaken' : Placed span.1 span.2 (ms.takeWhile (startsBefore span.2)) := by
      refine htaken.within (by omega) fun m hm => ?_
      have hstart : m.textStart < (span.2 : Int) := by
        simpa [startsBefore] using List.mem_takeWhile_imp hm
      obtain ⟨span', hspan', hhouse⟩ := hhoused m ((List.takeWhile_prefix _).subset hm)
      rcases List.mem_cons.mp hspan' with rfl | hspan'
      · exact hhouse
      · have hrange := rest.mem_range hspan'
        omega
    have hpending' : Housed (ms.dropWhile (startsBefore span.2)) spans := by
      refine (hhoused.of_subset fun m hm => (List.dropWhile_suffix _).subset hm).tail fun m hm => ?_
      have hstart := hbehind m hm
      have hrange := hpending.mem_range hm
      omega
    obtain ⟨hplaced, hquotes, htexts⟩ := ih hb hpending hpending'
    rw [sectionsAt]
    refine ⟨fun part hpart => ?_, ?_, ?_⟩
    · rcases List.mem_cons.mp hpart with rfl | hpart
      · have hlength : (textAt message.text span).length = span.2 - span.1 :=
          length_textAt within hspan
        have hshift := htaken'.shift (-span.1)
        refine hshift.mono (by omega) ?_
        dsimp only
        omega
      · exact hplaced part hpart
    · rw [List.flatMap_cons, hquotes, quoted_section hspan htaken', ← List.map_append, hsplit]
    · rw [List.map_cons, htexts, List.map_cons]

/-- Sections whose spans hold every mention carry the mentions and the content. -/
theorem sectionsAt_carries (hcov : Covering message.text 0 message.text.length spans)
    (hms : Placed 0 message.text.length message.mentions)
    (hhoused : Housed message.mentions spans) :
    Carries message (sectionsAt message message.mentions spans) ∧
      solid ((sectionsAt message message.mentions spans).flatMap (·.text)) =
        solid message.text := by
  obtain ⟨hplaced, hquotes, htexts⟩ := sectionsAt_spec hcov (Nat.le_refl _) hms hhoused
  refine ⟨⟨hplaced, hquotes⟩, ?_⟩
  rw [List.flatMap_def, htexts, hcov.content, textAt_all]

theorem sourceSections_carries (hcov : Covering message.text 0 message.text.length spans)
    (hms : Placed 0 message.text.length message.mentions)
    (hhoused : Housed message.mentions (atomicSpans message.mentions none spans)) :
    Carries message (sourceSections message spans) ∧
      solid ((sourceSections message spans).flatMap (·.text)) = solid message.text :=
  sectionsAt_carries (covering_atomicSpans hcov hms (by simp) hhoused) hms hhoused

end Yuki.Outbound

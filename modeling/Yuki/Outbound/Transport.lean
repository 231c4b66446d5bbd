import Mathlib.Data.List.TakeDrop
import Yuki.Lib.Attempt

/-! Messages of a transport, and their division into physical parts. -/

namespace Yuki.Outbound

structure TransportMention where
  externalId : String
  displayName : String
  textStart : Int
  textEnd : Int
  accountId : Option String := none
  assignmentId : Option String := none
  personId : Option String := none
  presenceId : Option String := none
  kind : String := "member"
deriving DecidableEq, Repr

structure TransportMedia where
  kind : String
  content : List UInt8
  filename : String
  mimeType : String
  emoji : Bool := false
deriving DecidableEq, Repr

/-- The text is a sequence of code points. -/
structure TransportMessage where
  text : List Char := []
  mentions : List TransportMention := []
  replyReference : Option String := none
  media : Option TransportMedia := none
deriving DecidableEq, Repr

/-- `replace(item, text_start=item.text_start + offset, text_end=item.text_end + offset)`. -/
def TransportMention.shift (m : TransportMention) (offset : Int) : TransportMention :=
  { m with textStart := m.textStart + offset, textEnd := m.textEnd + offset }

/-- An index of a slice: from the end if negative, and never out of range. -/
def sliceIndex (length : Nat) (i : Int) : Nat :=
  if i < 0 then (i + length).toNat else min i.toNat length

/-- `text[start:end]`. -/
def slice (text : List Char) (start stop : Int) : List Char :=
  (text.take (sliceIndex text.length stop)).drop (sliceIndex text.length start)

inductive SplitError
  | mentionExceedsPlatformLimit
deriving DecidableEq, Repr

/-- What one pass over the mentions leaves: the end of the part, its mentions, and the others. -/
structure PartEnd where
  stop : Int
  taken : List TransportMention
  pending : List TransportMention

/-- The inner loop: the cut moves back to the start of a mention it would break. -/
def partEnd (start stop : Int) : List TransportMention → Except SplitError PartEnd
  | [] => .ok ⟨stop, [], []⟩
  | mention :: mentions =>
    if mention.textStart ≥ stop then .ok ⟨stop, [], mention :: mentions⟩
    else if mention.textEnd > stop then
      if mention.textStart = start then .error .mentionExceedsPlatformLimit
      else .ok ⟨mention.textStart, [], mention :: mentions⟩
    else (partEnd start stop mentions).map fun r => { r with taken := mention :: r.taken }

/-- The outer loop from `start` on; `first` while there is no part yet. Nothing where `fuel` runs
out. -/
def splitLoop (message : TransportMessage) (limit following : Nat) :
    Nat → Bool → Int → List TransportMention → Option (Except SplitError (List TransportMessage))
  | 0, _, start, _ => if start < message.text.length then none else some (.ok [])
  | fuel + 1, first, start, mentions =>
    if start < message.text.length then
      let stop := min (start + if first then limit else following) message.text.length
      match partEnd start stop mentions with
      | .error e => some (.error e)
      | .ok part =>
        (splitLoop message limit following fuel false part.stop part.pending).map fun rest =>
          rest.map fun parts =>
            { message with
              text := slice message.text start part.stop
              mentions := part.taken.map (·.shift (-start))
              replyReference := if first then message.replyReference else none
              media := if first then message.media else none } :: parts
    else some (.ok [])

/-- `split_transport_message`; `following_limit or limit`. -/
def splitTransportMessage (message : TransportMessage) (limit : Nat) (followingLimit : Option Nat)
    (fuel : Nat) : Option (Except SplitError (List TransportMessage)) :=
  if message.text.length ≤ limit then some (.ok [message])
  else
    let following := (followingLimit.filter (· ≠ 0)).getD limit
    splitLoop message limit following fuel true 0 message.mentions

/-- More fuel changes no result. -/
theorem splitLoop_mono {message : TransportMessage} {limit following fuel fuel' : Nat}
    {first : Bool} {start : Int} {ms : List TransportMention}
    {result : Except SplitError (List TransportMessage)} (hfuel : fuel ≤ fuel')
    (h : splitLoop message limit following fuel first start ms = some result) :
    splitLoop message limit following fuel' first start ms = some result := by
  induction fuel generalizing fuel' first start ms result with
  | zero =>
    unfold splitLoop at h
    split at h
    · cases h
    · rename_i hge
      cases fuel' <;> (unfold splitLoop; rw [if_neg hge]; exact h)
  | succ fuel ih =>
    cases fuel' with
    | zero => omega
    | succ fuel' =>
      unfold splitLoop at h ⊢
      split
      swap
      · rename_i hge
        rwa [if_neg hge] at h
      rename_i hlt
      rw [if_pos hlt] at h
      dsimp only at h ⊢
      cases hp : partEnd start (min (start + ((if first then limit else following : Nat) : Int))
          message.text.length) ms with
      | error e =>
        rw [hp] at h
        exact h
      | ok part =>
        rw [hp] at h
        dsimp only at h ⊢
        obtain ⟨rest, hrest, rfl⟩ := Option.map_eq_some_iff.mp h
        rw [ih (by omega) hrest]
        rfl

/-! Mentions that lie in the text. -/

/-- Non-empty ranges between `start` and `stop`, one after the other. -/
inductive Placed : Int → Int → List TransportMention → Prop
  | nil {start stop : Int} (h : start ≤ stop) : Placed start stop []
  | cons {start stop : Int} {m : TransportMention} {ms : List TransportMention}
      (after : start ≤ m.textStart) (nonempty : m.textStart < m.textEnd)
      (rest : Placed m.textEnd stop ms) : Placed start stop (m :: ms)

variable {message : TransportMessage} {limit following : Nat} {start stop a b : Int}
  {m : TransportMention} {ms : List TransportMention} {text : List Char}

theorem Placed.le (h : Placed start stop ms) : start ≤ stop := by
  induction h with
  | nil h => exact h
  | cons after nonempty _ ih => omega

theorem Placed.mono (h : Placed start stop ms) (ha : a ≤ start) (hb : stop ≤ b) :
    Placed a b ms := by
  induction h generalizing a with
  | nil h => exact .nil (by omega)
  | cons after nonempty _ ih => exact .cons (by omega) nonempty (ih (Int.le_refl _) hb)

theorem Placed.mem_range (h : Placed start stop ms) (hm : m ∈ ms) :
    start ≤ m.textStart ∧ m.textStart < m.textEnd ∧ m.textEnd ≤ stop := by
  induction h with
  | nil _ => cases hm
  | cons after nonempty rest ih =>
    rcases List.mem_cons.mp hm with rfl | hm
    · exact ⟨after, nonempty, rest.le⟩
    · have := ih hm
      exact ⟨by omega, this.2⟩

theorem Placed.shift (h : Placed start stop ms) (offset : Int) :
    Placed (start + offset) (stop + offset) (ms.map (·.shift offset)) := by
  induction h with
  | nil h => exact .nil (by omega)
  | cons after nonempty _ ih =>
    refine .cons ?_ ?_ ih
    · simp only [TransportMention.shift]
      omega
    · simp only [TransportMention.shift]
      omega

@[simp] theorem TransportMention.shift_shift (m : TransportMention) (a b : Int) :
    (m.shift a).shift b = m.shift (a + b) := by
  simp [TransportMention.shift, Int.add_assoc]

@[simp] theorem TransportMention.shift_zero (m : TransportMention) : m.shift 0 = m := by
  simp [TransportMention.shift]

/-- What the inner loop does to placed mentions. -/
theorem partEnd_ok {part : PartEnd} (hms : Placed a b ms) (ha : start ≤ a) (hstop : a ≤ stop)
    (hle : stop ≤ b) (hlt : start < stop) (h : partEnd start stop ms = .ok part) :
    start < part.stop ∧ part.stop ≤ stop ∧ part.taken ++ part.pending = ms ∧
      Placed a part.stop part.taken ∧ Placed part.stop b part.pending := by
  induction hms generalizing part with
  | nil _ =>
    cases h
    exact ⟨hlt, Int.le_refl _, rfl, .nil hstop, .nil hle⟩
  | @cons a stop' m ms after nonempty rest ih =>
    unfold partEnd at h
    split at h
    · rename_i hge
      cases h
      exact ⟨hlt, Int.le_refl _, rfl, .nil hstop, .cons hge nonempty rest⟩
    · split at h
      · split at h
        · cases h
        · rename_i hne
          cases h
          have hlt' : m.textStart < stop := by omega
          have hgt : start < m.textStart := by omega
          exact ⟨hgt, Int.le_of_lt hlt', rfl, .nil after, .cons (Int.le_refl _) nonempty rest⟩
      · rename_i hin
        cases hr : partEnd start stop ms with
        | error e =>
          rw [hr] at h
          cases h
        | ok r =>
          rw [hr] at h
          cases h
          obtain ⟨h1, h2, h3, h4, h5⟩ := ih (by omega) (by omega) hle hr
          exact ⟨h1, h2, congrArg (m :: ·) h3, .cons after nonempty h4, h5⟩

/-- The inner loop fails only at a mention that starts where the part does and does not fit it. -/
theorem partEnd_error {e : SplitError} (hms : Placed a b ms)
    (h : partEnd start stop ms = .error e) :
    ∃ m ∈ ms, m.textStart = start ∧ stop < m.textEnd := by
  induction hms with
  | nil _ => cases h
  | @cons a stop' m ms after nonempty rest ih =>
    unfold partEnd at h
    split at h
    · cases h
    · split at h
      · rename_i hgt
        split at h
        · rename_i heq
          exact ⟨m, List.mem_cons_self, heq, hgt⟩
        · cases h
      · cases hr : partEnd start stop ms with
        | error e' =>
          obtain ⟨m', hm, h'⟩ := ih hr
          exact ⟨m', List.mem_cons_of_mem _ hm, h'⟩
        | ok r =>
          rw [hr] at h
          cases h

/-! Slices. -/

theorem slice_of_range {i j : Nat} (hij : i ≤ j) (hj : j ≤ text.length) :
    slice text i j = (text.drop i).take (j - i) := by
  have hi : sliceIndex text.length (i : Int) = i := by
    unfold sliceIndex
    rw [if_neg (by omega)]
    omega
  have hj' : sliceIndex text.length (j : Int) = j := by
    unfold sliceIndex
    rw [if_neg (by omega)]
    omega
  rw [slice, hi, hj', List.drop_take]

theorem length_slice (ha : 0 ≤ a) (hab : a ≤ b) (hb : b ≤ text.length) :
    ((slice text a b).length : Int) = b - a := by
  lift a to Nat using ha
  lift b to Nat using by omega
  rw [slice_of_range (by omega) (by omega), List.length_take, List.length_drop]
  omega

theorem slice_append_drop (ha : 0 ≤ a) (hab : a ≤ b) (hb : b ≤ text.length) :
    slice text a b ++ text.drop b.toNat = text.drop a.toNat := by
  lift a to Nat using ha
  lift b to Nat using by omega
  rw [slice_of_range (by omega) (by omega), Int.toNat_natCast, Int.toNat_natCast]
  have h := List.take_append_drop (b - a) (text.drop a)
  rw [List.drop_drop, show a + (b - a) = b by omega] at h
  exact h

theorem slice_append (xs ys : List Char) (ha : 0 ≤ a) (hab : a ≤ b) (hb : b ≤ xs.length) :
    slice (xs ++ ys) a b = slice xs a b := by
  lift a to Nat using ha
  lift b to Nat using by omega
  have hlen : b ≤ (xs ++ ys).length := by
    rw [List.length_append]
    omega
  have hcut : b - a ≤ (xs.drop a).length := by
    rw [List.length_drop]
    omega
  rw [slice_of_range (by omega) hlen, slice_of_range (by omega) (by omega),
    List.drop_append_of_le_length (by omega), List.take_append_of_le_length hcut]

theorem slice_shift (xs ys : List Char) (ha : 0 ≤ a) (hab : a ≤ b) (hb : b ≤ ys.length) :
    slice (xs ++ ys) (a + xs.length) (b + xs.length) = slice ys a b := by
  lift a to Nat using ha
  lift b to Nat using by omega
  have hlen : xs.length + b ≤ (xs ++ ys).length := by
    rw [List.length_append]
    omega
  have ha' : (a : Int) + xs.length = ((xs.length + a : Nat) : Int) := by omega
  have hb' : (b : Int) + xs.length = ((xs.length + b : Nat) : Int) := by omega
  rw [ha', hb', slice_of_range (by omega) hlen, slice_of_range (by omega) (by omega),
    List.drop_append, List.drop_eq_nil_of_le (by omega), List.nil_append,
    show xs.length + a - xs.length = a by omega,
    show xs.length + b - (xs.length + a) = b - a by omega]

/-! The parts of a message. -/

/-- The mentions of parts that follow each other from `offset` on, where they lie in the whole. -/
def relocated : Int → List TransportMessage → List TransportMention
  | _, [] => []
  | offset, part :: parts =>
    part.mentions.map (·.shift offset) ++ relocated (offset + part.text.length) parts

/-- The parts hold the text from `start` on and its mentions, within the limits. -/
structure Parts (message : TransportMessage) (limit following : Nat) (first : Bool) (start : Int)
    (mentions : List TransportMention) (parts : List TransportMessage) : Prop where
  texts : parts.flatMap (·.text) = message.text.drop start.toNat
  mentions : relocated start parts = mentions
  placed : ∀ part ∈ parts, Placed 0 part.text.length part.mentions
  bounded : ∀ before part after, parts = before ++ part :: after →
    part.text.length ≤ if first && before.isEmpty then limit else following
  carried : ∀ before part after, parts = before ++ part :: after →
    part.replyReference = (if first && before.isEmpty then message.replyReference else none) ∧
      part.media = if first && before.isEmpty then message.media else none

/-- A mention that is longer than the part in which it would start may be. -/
def TooLong (limit following : Nat) (m : TransportMention) : Prop :=
  (if m.textStart = 0 then (limit : Int) else following) < m.textEnd - m.textStart

theorem Parts.nil (hstart : (message.text.length : Int) ≤ start) {first : Bool} :
    Parts message limit following first start [] [] where
  texts := (List.drop_eq_nil_of_le (by omega)).symm
  mentions := rfl
  placed := fun _ h => absurd h List.not_mem_nil
  bounded := fun before _ _ h => by cases before <;> cases h
  carried := fun before _ _ h => by cases before <;> cases h

/-- One part in front of those that follow it. -/
theorem Parts.cons {first : Bool} {stop : Int} {taken pending : List TransportMention}
    {parts : List TransportMessage} (hstart : 0 ≤ start) (hlt : start < stop)
    (hstop : stop ≤ message.text.length)
    (hbound : stop ≤ start + if first then limit else following)
    (htaken : Placed start stop taken)
    (h : Parts message limit following false stop pending parts) :
    Parts message limit following first start (taken ++ pending)
      ({ message with
          text := slice message.text start stop
          mentions := taken.map (·.shift (-start))
          replyReference := if first then message.replyReference else none
          media := if first then message.media else none } :: parts) := by
  have hlen : ((slice message.text start stop).length : Int) = stop - start :=
    length_slice hstart (by omega) hstop
  constructor
  · rw [List.flatMap_cons, h.texts]
    exact slice_append_drop hstart (by omega) hstop
  · rw [relocated]
    dsimp only
    rw [hlen, show start + (stop - start) = stop by omega, h.mentions, List.map_map]
    have hback :
        (fun m : TransportMention => m.shift start) ∘ (fun m => m.shift (-start)) = id := by
      funext m
      simp only [Function.comp, TransportMention.shift_shift, Int.add_left_neg,
        TransportMention.shift_zero, id]
    rw [hback, List.map_id]
  · intro part hpart
    rcases List.mem_cons.mp hpart with rfl | hpart
    · dsimp only
      rw [hlen]
      have hshift := htaken.shift (-start)
      exact hshift.mono (by omega) (by omega)
    · exact h.placed part hpart
  · intro before part after heq
    cases before with
    | nil =>
      obtain ⟨rfl, -⟩ := List.cons.inj heq
      cases first <;> simp at hbound ⊢ <;> omega
    | cons b before =>
      obtain ⟨-, rfl⟩ := List.cons.inj heq
      simpa using h.bounded before part after rfl
  · intro before part after heq
    cases before with
    | nil =>
      obtain ⟨rfl, -⟩ := List.cons.inj heq
      simp
    | cons b before =>
      obtain ⟨-, rfl⟩ := List.cons.inj heq
      simpa using h.carried before part after rfl

/-- The loop ends, with the parts of what is left or at a mention that is too long. -/
theorem splitLoop_spec (hlimit : 0 < limit) (hfollowing : 0 < following) (fuel : Nat) (first : Bool)
    (hfirst : first = true ↔ start = 0) (hstart : 0 ≤ start) (hle : start ≤ message.text.length)
    (hms : Placed start message.text.length ms) (hfuel : message.text.length ≤ start + fuel) :
    (∃ parts, splitLoop message limit following fuel first start ms = some (.ok parts) ∧
        Parts message limit following first start ms parts) ∨
      (∃ m ∈ ms, TooLong limit following m) ∧
        splitLoop message limit following fuel first start ms =
          some (.error .mentionExceedsPlatformLimit) := by
  induction fuel generalizing start ms first with
  | zero =>
    have heq : start = message.text.length := by omega
    refine Or.inl ⟨[], if_neg (by omega), ?_⟩
    cases hms with
    | nil _ => exact .nil (by omega)
    | cons after nonempty rest =>
      have := rest.le
      omega
  | succ fuel ih =>
    unfold splitLoop
    split
    swap
    · refine Or.inl ⟨[], rfl, ?_⟩
      cases hms with
      | nil _ => exact .nil (by omega)
      | cons after nonempty rest =>
        have := rest.le
        omega
    rename_i hlt
    dsimp only
    generalize hstop : min (start + ((if first then limit else following : Nat) : Int))
      (message.text.length : Int) = stop
    have hpos : 0 < (if first then limit else following) := by
      split <;> assumption
    cases hpart : partEnd start stop ms with
    | error e =>
      obtain ⟨m, hm, hmstart, hmend⟩ := partEnd_error hms hpart
      have hmle : m.textEnd ≤ message.text.length := (hms.mem_range hm).2.2
      refine Or.inr ⟨⟨m, hm, ?_⟩, by cases e; rfl⟩
      unfold TooLong
      rw [hmstart]
      cases first with
      | true =>
        rw [if_pos (hfirst.mp rfl)]
        simp only [if_true] at hstop
        omega
      | false =>
        rw [if_neg (fun h => absurd (hfirst.mpr h) (by simp))]
        simp only [Bool.false_eq_true, if_false] at hstop
        omega
    | ok part =>
      obtain ⟨hgt, hstople, happ, htaken, hpending⟩ := partEnd_ok hms (Int.le_refl _) (by omega)
        (by omega) (by omega) hpart
      dsimp only
      rcases @ih part.stop part.pending false
          (by constructor <;> intro h <;> first | cases h | omega) (by omega) (by omega) hpending
          (by omega) with ⟨parts, hrun, hparts⟩ | ⟨⟨m, hm, hlong⟩, hrun⟩
      · rw [hrun]
        refine Or.inl ⟨_, rfl, ?_⟩
        rw [← happ]
        exact Parts.cons hstart hgt (by omega) (by omega) htaken hparts
      · rw [hrun]
        refine Or.inr ⟨⟨m, ?_, hlong⟩, rfl⟩
        rw [← happ]
        exact List.mem_append_right _ hm

/-- A mention of a part selects the same characters there as in the whole. -/
theorem Parts.same_text {first : Bool} {parts : List TransportMessage}
    (h : Parts message limit following first 0 ms parts) {before after : List TransportMessage}
    {part : TransportMessage} (heq : parts = before ++ part :: after) (hm : m ∈ part.mentions) :
    slice message.text (m.textStart + (before.flatMap (·.text)).length)
        (m.textEnd + (before.flatMap (·.text)).length) =
      slice part.text m.textStart m.textEnd := by
  have hplaced := h.placed part (by rw [heq]; exact List.mem_append_right _ List.mem_cons_self)
  have hrange := hplaced.mem_range hm
  have htext : message.text =
      before.flatMap (·.text) ++ (part.text ++ after.flatMap (·.text)) := by
    have := h.texts
    rw [heq, List.flatMap_append, List.flatMap_cons, Int.toNat_zero, List.drop_zero] at this
    exact this.symm
  rw [htext, slice_shift _ _ hrange.1 (Int.le_of_lt hrange.2.1) (by
    rw [List.length_append]
    omega), slice_append _ _ hrange.1 (Int.le_of_lt hrange.2.1) hrange.2.2]

/-- Splitting ends; it loses nothing and keeps every mention whole, or names a mention that no
part could hold. -/
theorem split_loses_nothing (message : TransportMessage) (limit : Nat) (followingLimit : Option Nat)
    (hlimit : 1 ≤ limit) (hfollowing : ∀ f, followingLimit = some f → 1 ≤ f)
    (hmentions : Placed 0 message.text.length message.mentions) :
    ∃ result, (∀ fuel, message.text.length ≤ fuel →
        splitTransportMessage message limit followingLimit fuel = some result) ∧
      match result with
      | .ok parts => parts.flatMap (·.text) = message.text ∧
          (∀ before part after, parts = before ++ part :: after →
            part.text.length ≤ (if before.isEmpty then limit else followingLimit.getD limit) ∧
            part.replyReference = (if before.isEmpty then message.replyReference else none) ∧
            part.media = (if before.isEmpty then message.media else none) ∧
            Placed 0 part.text.length part.mentions ∧
            ∀ m ∈ part.mentions,
              slice message.text (m.textStart + (before.flatMap (·.text)).length)
                  (m.textEnd + (before.flatMap (·.text)).length) =
                slice part.text m.textStart m.textEnd) ∧
          relocated 0 parts = message.mentions
      | .error _ => ∃ m ∈ message.mentions, TooLong limit (followingLimit.getD limit) m := by
  have hfilter : (followingLimit.filter (· ≠ 0)).getD limit = followingLimit.getD limit := by
    cases followingLimit with
    | none => rfl
    | some f =>
      have := hfollowing f rfl
      rw [Option.filter_some_pos (by simp; omega)]
  have hpos : 0 < followingLimit.getD limit := by
    cases followingLimit with
    | none => exact hlimit
    | some f => exact hfollowing f rfl
  by_cases hshort : message.text.length ≤ limit
  · refine ⟨.ok [message], fun fuel _ => if_pos hshort, by simp, ?_, ?_⟩
    · intro before part after heq
      cases before with
      | nil =>
        obtain ⟨rfl, -⟩ := List.cons.inj heq
        exact ⟨hshort, rfl, rfl, hmentions, fun m _ => by simp⟩
      | cons b before => simp at heq
    · simp [relocated]
  · rcases splitLoop_spec hlimit hpos message.text.length true (by simp)
        (Int.le_refl 0) (Int.natCast_nonneg _) hmentions (by omega) with
      ⟨parts, hrun, hparts⟩ | ⟨hlong, hrun⟩
    · refine ⟨.ok parts, fun fuel hfuel => ?_, by simpa using hparts.texts, ?_, hparts.mentions⟩
      · rw [splitTransportMessage, if_neg hshort, hfilter]
        exact splitLoop_mono hfuel hrun
      · intro before part after heq
        have hb := hparts.bounded before part after heq
        have hc := hparts.carried before part after heq
        rw [Bool.true_and] at hb hc
        refine ⟨hb, hc.1, hc.2, hparts.placed part ?_, fun m hm => hparts.same_text heq hm⟩
        rw [heq]
        exact List.mem_append_right _ List.mem_cons_self
    · refine ⟨.error .mentionExceedsPlatformLimit, fun fuel hfuel => ?_, hlong⟩
      rw [splitTransportMessage, if_neg hshort, hfilter]
      exact splitLoop_mono hfuel hrun

/-- A mention that the first cut would break: it opens the second part. -/
def greeting : TransportMessage where
  text := "hi @bob!".toList
  mentions := [{ externalId := "42", displayName := "bob", textStart := 3, textEnd := 7 }]
  replyReference := some "reply"

theorem split_loses_nothing_greeting :
    ∃ parts, splitTransportMessage greeting 5 (some 4) 8 = some (.ok parts) ∧
      parts.map (·.text) = ["hi ".toList, "@bob".toList, "!".toList] ∧
      relocated 0 parts = greeting.mentions := by
  obtain ⟨result, hrun, hspec⟩ := split_loses_nothing greeting 5 (some 4) (by decide)
    (by simp) (.cons (by decide) (by decide) (.nil (by decide)))
  have hresult := hrun 8 (by decide)
  cases result with
  | error e => exact absurd hresult (by cases e; decide)
  | ok parts =>
    refine ⟨parts, hresult, ?_, hspec.2.2⟩
    have hparts : (splitTransportMessage greeting 5 (some 4) 8).bind Except.toOption =
        some parts := by rw [hresult]; rfl
    have htexts : ((splitTransportMessage greeting 5 (some 4) 8).bind Except.toOption).map
        (·.map (·.text)) = some ["hi ".toList, "@bob".toList, "!".toList] := by decide
    rw [hparts] at htexts
    exact Option.some.inj htexts

end Yuki.Outbound

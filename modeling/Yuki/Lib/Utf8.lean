import Mathlib.Data.List.Basic
import Mathlib.Tactic.IntervalCases

/-! UTF-8 as numbers below 256, and a decoder that is fed a text in chunks: what
is left of a character at the end of a chunk is kept for the next one. -/

namespace Yuki.Utf8

def encodeChar (c : Char) : List Nat :=
  let n := c.toNat
  if n < 0x80 then [n]
  else if n < 0x800 then [0xC0 + n / 64, 0x80 + n % 64]
  else if n < 0x10000 then [0xE0 + n / 4096, 0x80 + n / 64 % 64, 0x80 + n % 64]
  else [0xF0 + n / 262144, 0x80 + n / 4096 % 64, 0x80 + n / 64 % 64, 0x80 + n % 64]

def encode (text : List Char) : List Nat :=
  text.flatMap encodeChar

/-- How a sequence of bytes starts. -/
inductive Head
  | char (c : Char) (length : Nat)
  | incomplete
  | invalid

def isTail (b : Nat) : Bool :=
  0x80 ≤ b && b ≤ 0xBF

/-- The bytes that may follow the first one: no overlong forms, no surrogates, nothing above
U+10FFFF. -/
def isSecond (a b : Nat) : Bool :=
  if a = 0xE0 then 0xA0 ≤ b && b ≤ 0xBF
  else if a = 0xED then 0x80 ≤ b && b ≤ 0x9F
  else if a = 0xF0 then 0x90 ≤ b && b ≤ 0xBF
  else if a = 0xF4 then 0x80 ≤ b && b ≤ 0x8F
  else isTail b

def headTwo (a : Nat) : List Nat → Head
  | [] => .incomplete
  | b :: _ =>
    if isTail b then .char (Char.ofNat ((a - 0xC0) * 64 + (b - 0x80))) 2 else .invalid

def headThree (a : Nat) : List Nat → Head
  | [] => .incomplete
  | [b] => if isSecond a b then .incomplete else .invalid
  | b :: c :: _ =>
    if isSecond a b && isTail c then
      .char (Char.ofNat ((a - 0xE0) * 4096 + (b - 0x80) * 64 + (c - 0x80))) 3
    else .invalid

def headFour (a : Nat) : List Nat → Head
  | [] => .incomplete
  | [b] => if isSecond a b then .incomplete else .invalid
  | [b, c] => if isSecond a b && isTail c then .incomplete else .invalid
  | b :: c :: d :: _ =>
    if isSecond a b && isTail c && isTail d then
      .char (Char.ofNat ((a - 0xF0) * 262144 + (b - 0x80) * 4096 + (c - 0x80) * 64 + (d - 0x80))) 4
    else .invalid

def head : List Nat → Head
  | [] => .incomplete
  | a :: rest =>
    if a < 0x80 then .char (Char.ofNat a) 1
    else if a < 0xC2 then .invalid
    else if a < 0xE0 then headTwo a rest
    else if a < 0xF0 then headThree a rest
    else if a < 0xF5 then headFour a rest
    else .invalid

/-- The characters of a sequence of bytes and the incomplete one at its end, which is refused
when nothing follows; `skip` bytes belong to a character already read. -/
def decode (final : Bool) : Nat → List Nat → Option (List Char × List Nat)
  | _, [] => some ([], [])
  | skip + 1, _ :: bytes => decode final skip bytes
  | 0, b :: bytes =>
    match head (b :: bytes) with
    | .char c length => (decode final (length - 1) bytes).map fun r => (c :: r.1, r.2)
    | .incomplete => if final then none else some ([], b :: bytes)
    | .invalid => none

theorem toNat_lt (c : Char) : c.toNat < 0x110000 ∧ (c.toNat < 0xD800 ∨ 0xDFFF < c.toNat) := by
  have h := c.valid
  simp only [UInt32.isValidChar, Nat.isValidChar] at h
  have hn : c.toNat = c.val.toNat := rfl
  omega

theorem encodeChar_ne_nil (c : Char) : encodeChar c ≠ [] := by
  unfold encodeChar
  dsimp only
  split
  · simp
  · split
    · simp
    · split <;> simp

theorem isTail_mod (n : Nat) : isTail (0x80 + n % 64) = true := by
  simp only [isTail, Bool.and_eq_true, decide_eq_true_eq]
  omega

theorem isSecond_three {n : Nat} (hlow : 0x800 ≤ n) (hhigh : n < 0x10000)
    (hgap : n < 0xD800 ∨ 0xDFFF < n) : isSecond (0xE0 + n / 4096) (0x80 + n / 64 % 64) = true := by
  unfold isSecond
  split
  · simp only [Bool.and_eq_true, decide_eq_true_eq]
    omega
  · split
    · simp only [Bool.and_eq_true, decide_eq_true_eq]
      omega
    · rw [if_neg (by omega), if_neg (by omega)]
      exact isTail_mod _

theorem isSecond_four {n : Nat} (hlow : 0x10000 ≤ n) (hhigh : n < 0x110000) :
    isSecond (0xF0 + n / 262144) (0x80 + n / 4096 % 64) = true := by
  unfold isSecond
  rw [if_neg (by omega), if_neg (by omega)]
  split
  · simp only [Bool.and_eq_true, decide_eq_true_eq]
    omega
  · split
    · simp only [Bool.and_eq_true, decide_eq_true_eq]
      omega
    · exact isTail_mod _

theorem head_encodeChar (c : Char) (rest : List Nat) :
    head (encodeChar c ++ rest) = .char c (encodeChar c).length := by
  obtain ⟨hlt, hgap⟩ := toNat_lt c
  have hc : ∀ n, n = c.toNat → Char.ofNat n = c := by
    rintro n rfl
    exact Char.ofNat_toNat c
  unfold encodeChar
  dsimp only
  split
  · simp only [List.cons_append, List.nil_append, head, List.length_cons, List.length_nil]
    rw [if_pos (by omega), hc _ rfl]
  · split
    · simp only [List.cons_append, List.nil_append, head, headTwo, List.length_cons, List.length_nil]
      rw [if_neg (by omega), if_neg (by omega), if_pos (by omega), if_pos (isTail_mod _),
        hc _ (by omega)]
    · split
      · have hs := isSecond_three (n := c.toNat) (by omega) (by omega) hgap
        simp only [List.cons_append, List.nil_append, head, headThree, hs, isTail_mod, Bool.and_self,
          List.length_cons, List.length_nil]
        rw [if_neg (by omega), if_neg (by omega), if_neg (by omega), if_pos (by omega),
          if_pos trivial, hc _ (by omega)]
      · have hs := isSecond_four (n := c.toNat) (by omega) (by omega)
        simp only [List.cons_append, List.nil_append, head, headFour, hs, isTail_mod, Bool.and_self,
          List.length_cons, List.length_nil]
        rw [if_neg (by omega), if_neg (by omega), if_neg (by omega), if_neg (by omega),
          if_pos (by omega), if_pos trivial, hc _ (by omega)]

/-- A character that is cut short is incomplete, never wrong. -/
theorem head_of_cut {c : Char} {p q : List Nat} (h : p ++ q = encodeChar c) (hq : q ≠ []) :
    head p = .incomplete := by
  obtain ⟨hlt, hgap⟩ := toNat_lt c
  have hlen : p.length < (encodeChar c).length := by
    rw [← h, List.length_append]
    have := List.length_pos_of_ne_nil hq
    omega
  have hp : p = (encodeChar c).take p.length := by rw [← h, List.take_left]
  revert hlen hp
  generalize p.length = k
  unfold encodeChar
  dsimp only
  split
  · intro hlen hp
    obtain rfl : k = 0 := by simpa using hlen
    simp [hp, head]
  · split
    · intro hlen hp
      simp only [List.length_cons, List.length_nil] at hlen
      interval_cases k
      · simp [hp, head]
      · simp only [hp, List.take_succ_cons, List.take_zero, head, headTwo]
        rw [if_neg (by omega), if_neg (by omega), if_pos (by omega)]
    · split
      · have hs := isSecond_three (n := c.toNat) (by omega) (by omega) hgap
        intro hlen hp
        simp only [List.length_cons, List.length_nil] at hlen
        rw [hp]
        interval_cases k <;>
          simp only [List.take_succ_cons, List.take_zero, head, headThree, hs, if_true]
        all_goals
          rw [if_neg (by omega), if_neg (by omega), if_neg (by omega), if_pos (by omega)]
      · have hs := isSecond_four (n := c.toNat) (by omega) (by omega)
        intro hlen hp
        simp only [List.length_cons, List.length_nil] at hlen
        rw [hp]
        interval_cases k <;>
          simp only [List.take_succ_cons, List.take_zero, head, headFour, hs, isTail_mod,
            Bool.and_self, if_true]
        all_goals
          rw [if_neg (by omega), if_neg (by omega), if_neg (by omega), if_neg (by omega),
            if_pos (by omega)]

theorem decode_skip (final : Bool) (l bytes : List Nat) :
    decode final l.length (l ++ bytes) = decode final 0 bytes := by
  induction l with
  | nil => rfl
  | cons b l ih => simpa [decode] using ih

theorem decode_encodeChar (final : Bool) (c : Char) (bytes : List Nat) :
    decode final 0 (encodeChar c ++ bytes) =
      (decode final 0 bytes).map fun r => (c :: r.1, r.2) := by
  have hh := head_encodeChar c bytes
  obtain ⟨b, l, he⟩ := List.exists_cons_of_ne_nil (encodeChar_ne_nil c)
  rw [he] at hh ⊢
  rw [List.cons_append] at hh ⊢
  simp only [decode, hh, List.length_cons, Nat.add_sub_cancel, decode_skip]

/-- The end of a text that is read in chunks: nothing, or the start of its next character. -/
def IsCut (p : List Nat) (rest : List Char) : Prop :=
  p = [] ∨ ∃ c q, rest.head? = some c ∧ p ++ q = encodeChar c ∧ q ≠ []

/-- The characters that are whole are decoded, and the rest is kept. -/
theorem decode_encode (text rest : List Char) (p : List Nat) (hp : IsCut p rest) :
    decode false 0 (encode text ++ p) = some (text, p) := by
  induction text with
  | nil =>
    obtain rfl | ⟨c, q, -, hpq, hq⟩ := hp
    · rfl
    · cases p with
      | nil => rfl
      | cons b p => simp [encode, decode, head_of_cut hpq hq]
  | cons c text ih =>
    have he : encode (c :: text) ++ p = encodeChar c ++ (encode text ++ p) := by simp [encode]
    rw [he, decode_encodeChar, ih]
    rfl

theorem decode_final (text : List Char) : decode true 0 (encode text) = some (text, []) := by
  induction text with
  | nil => rfl
  | cons c text ih =>
    have he : encode (c :: text) = encodeChar c ++ encode text := by simp [encode]
    rw [he, decode_encodeChar, ih]
    rfl

/-- Wherever a text is cut, the first part is whole characters and the start of one. -/
theorem encode_cut {text : List Char} {pre post : List Nat} (h : pre ++ post = encode text) :
    ∃ t t' p, text = t ++ t' ∧ pre = encode t ++ p ∧ p ++ post = encode t' ∧ IsCut p t' := by
  induction text generalizing pre with
  | nil =>
    obtain ⟨rfl, rfl⟩ := List.append_eq_nil_iff.1 h
    exact ⟨[], [], [], rfl, rfl, rfl, .inl rfl⟩
  | cons c text ih =>
    have he : encode (c :: text) = encodeChar c ++ encode text := by simp [encode]
    rw [he] at h
    obtain ⟨q, hq, rfl⟩ | ⟨l, rfl, hl⟩ := List.append_eq_append_iff.1 h
    · by_cases hnil : q = []
      · subst hnil
        refine ⟨[c], text, [], rfl, ?_, rfl, .inl rfl⟩
        rw [List.append_nil] at hq
        simp [encode, hq]
      · exact ⟨[], c :: text, pre, rfl, rfl, by rw [he, ← List.append_assoc, hq],
          .inr ⟨c, q, rfl, hq.symm, hnil⟩⟩
    · obtain ⟨t, t', p, rfl, rfl, hpost, hcut⟩ := ih hl.symm
      exact ⟨c :: t, t', p, rfl, by simp [encode], hpost, hcut⟩

end Yuki.Utf8

import Mathlib.Algebra.GroupWithZero.Nat
import Mathlib.Algebra.Order.BigOperators.Group.List
import Mathlib.Data.List.Range
import Mathlib.Tactic.SplitIfs
import Mathlib.Tactic.Tauto
import Yuki.Lib.JsonText

/-! Character counts of the JSON text of a value, stopped early where a bound is
known to be exceeded and remembered for the containers already visited. -/

namespace Yuki.ToolResults

/-- A decoded value; `ident` is the identity of a container. -/
inductive Node
  | null
  | bool (b : Bool)
  | int (n : Int)
  | real (m e : Int)
  | str (s : String)
  | arr (ident : Nat) (items : List Node)
  | obj (ident : Nat) (fields : List (String × Node))
deriving Inhabited

namespace Node

mutual

/-- The value without identities. -/
def plain : Node → Json
  | .null => .null
  | .bool b => .bool b
  | .int n => .int n
  | .real m e => .real m e
  | .str s => .str s
  | .arr _ items => .arr (plainItems items)
  | .obj _ fields => .obj (plainFields fields)

def plainItems : List Node → List Json
  | [] => []
  | x :: xs => plain x :: plainItems xs

def plainFields : List (String × Node) → List (String × Json)
  | [] => []
  | (k, v) :: fs => (k, plain v) :: plainFields fs

end

mutual

/-- The nested calls that visit a value. -/
def height : Node → Nat
  | .arr _ items => 1 + heightItems items
  | .obj _ fields => 1 + heightFields fields
  | _ => 1

def heightItems : List Node → Nat
  | [] => 0
  | x :: xs => max (height x) (heightItems xs)

def heightFields : List (String × Node) → Nat
  | [] => 0
  | (_, v) :: fs => max (height v) (heightFields fs)

end

theorem height_pos (x : Node) : 0 < x.height := by
  cases x <;> simp [height]

mutual

/-- A value whose containers are told apart by nothing. -/
def ofJson : Json → Node
  | .null => .null
  | .bool b => .bool b
  | .int n => .int n
  | .real m e => .real m e
  | .str s => .str s
  | .arr items => .arr 0 (ofItems items)
  | .obj fields => .obj 0 (ofFields fields)

def ofItems : List Json → List Node
  | [] => []
  | x :: xs => ofJson x :: ofItems xs

def ofFields : List (String × Json) → List (String × Node)
  | [] => []
  | (k, v) :: fs => (k, ofJson v) :: ofFields fs

end

mutual

@[simp] theorem plain_ofJson : (j : Json) → (ofJson j).plain = j
  | .null | .bool _ | .int _ | .real _ _ | .str _ => rfl
  | .arr items => by simp [ofJson, plain, plainItems_ofItems items]
  | .obj fields => by simp [ofJson, plain, plainFields_ofFields fields]

theorem plainItems_ofItems : (items : List Json) → plainItems (ofItems items) = items
  | [] => rfl
  | x :: xs => by simp [ofItems, plainItems, plain_ofJson x, plainItems_ofItems xs]

theorem plainFields_ofFields : (fields : List (String × Json)) →
    plainFields (ofFields fields) = fields
  | [] => rfl
  | (k, v) :: fs => by simp [ofFields, plainFields, plain_ofJson v, plainFields_ofFields fs]

end

end Node

def escapedCharacterLength (c : Char) : Nat :=
  if c ∈ ['\\', '"', Char.ofNat 8, Char.ofNat 12, '\n', '\r', '\t'] then 2
  else if c.toNat < 0x20 then 6 else 1

/-- The entries made so far, newest first: the container, its count, and whether that is exact. -/
abbrev Cache := List (Nat × Node × Int × Bool)

def isNegative (remaining : Option Int) : Bool :=
  remaining.any fun r => r < 0

def exceeds (size : Int) (remaining : Option Int) : Bool :=
  remaining.any fun r => r < size

/-- `min(size, remaining + 1)`. -/
def cap (remaining : Option Int) (size : Int) : Int :=
  match remaining with
  | some r => min size (r + 1)
  | none => size

def rest (remaining : Option Int) (size : Int) : Option Int :=
  remaining.map fun r => r - size

def overflow (remaining : Option Int) : Int :=
  remaining.getD 0 + 1

/-- `item[start : start + width]` for each start of `range(0, len(item), width)`. -/
def slices (width : Nat) (text : List Char) : List (List Char) :=
  (List.range ((text.length + width - 1) / width)).map fun i => (text.drop (i * width)).take width

/-- The body of `encode_basestring`, without its quotes. -/
def countSlices : List (List Char) → Int → Option Int → Int
  | [], size, _ => size
  | slice :: slices, size, remaining =>
    let size := size + (slice.flatMap Json.escapeChar).length
    if exceeds size remaining then overflow remaining else countSlices slices size remaining

def countString (s : String) (remaining : Option Int) : Int :=
  if exceeds (s.toList.length + 2) remaining then overflow remaining
  else countSlices (slices 65536 s.toList) 2 remaining

def saved (cache : Option Cache) (ident : Nat) (item : Node) (remaining : Option Int) : Option Int :=
  (cache.bind fun entries => entries.lookup ident).bind fun entry =>
    if entry.1.plain = item.plain && (entry.2.2 || exceeds entry.2.1 remaining) then
      some (cap remaining entry.2.1)
    else none

mutual

/-- The inner `count`: no result where the calls left run out; `separator` is the width of
both separators. -/
def count (separator : Int) : Node → Nat → Option Int → Option Cache → Option Int × Option Cache
  | _, 0, _, cache => (none, cache)
  | .null, _ + 1, remaining, cache =>
    (some (if isNegative remaining then 0 else cap remaining 4), cache)
  | .bool b, _ + 1, remaining, cache =>
    (some (if isNegative remaining then 0 else cap remaining (if b then 4 else 5)), cache)
  | .int n, _ + 1, remaining, cache =>
    (some (if isNegative remaining then 0 else cap remaining (toString n).toList.length), cache)
  | .real m e, _ + 1, remaining, cache =>
    (some (if isNegative remaining then 0 else cap remaining (Json.renderReal m e).length), cache)
  | .str s, _ + 1, remaining, cache =>
    (some (if isNegative remaining then 0 else countString s remaining), cache)
  | .arr ident items, stack + 1, remaining, cache =>
    if isNegative remaining then (some 0, cache)
    else match saved cache ident (.arr ident items) remaining with
    | some size => (some size, cache)
    | none =>
      if exceeds 2 remaining then (some (overflow remaining), cache)
      else
        let counted := countItems separator items stack remaining true 2 cache
        (counted.1.map (·.1), match counted.1 with
          | some entry => counted.2.map ((ident, .arr ident items, entry) :: ·)
          | none => counted.2)
  | .obj ident fields, stack + 1, remaining, cache =>
    if isNegative remaining then (some 0, cache)
    else match saved cache ident (.obj ident fields) remaining with
    | some size => (some size, cache)
    | none =>
      if exceeds 2 remaining then (some (overflow remaining), cache)
      else
        let counted := countFields separator fields stack remaining true 2 cache
        (counted.1.map (·.1), match counted.1 with
          | some entry => counted.2.map ((ident, .obj ident fields, entry) :: ·)
          | none => counted.2)

/-- The loop over a list: the size so far, and whether it is exact. -/
def countItems (separator : Int) : List Node → Nat → Option Int → Bool → Int → Option Cache →
    Option (Int × Bool) × Option Cache
  | [], _, _, _, size, cache => (some (size, true), cache)
  | x :: xs, stack, remaining, first, size, cache =>
    let size := if first then size else size + separator
    match count separator x stack (rest remaining size) cache with
    | (none, cache) => (none, cache)
    | (some n, cache) =>
      if exceeds (size + n) remaining then (some (overflow remaining, false), cache)
      else countItems separator xs stack remaining false (size + n) cache

def countFields (separator : Int) : List (String × Node) → Nat → Option Int → Bool → Int →
    Option Cache → Option (Int × Bool) × Option Cache
  | [], _, _, _, size, cache => (some (size, true), cache)
  | (k, v) :: fs, stack, remaining, first, size, cache =>
    let size := if first then size else size + separator
    if stack = 0 then (none, cache)
    else
      let key := if isNegative (rest remaining size) then 0 else countString k (rest remaining size)
      let size := size + key + separator
      match count separator v stack (rest remaining size) cache with
      | (none, cache) => (none, cache)
      | (some n, cache) =>
        if exceeds (size + n) remaining then (some (overflow remaining, false), cache)
        else countFields separator fs stack remaining false (size + n) cache

end

/-- `json_character_count`; `stack` is how many nested calls the interpreter has left. -/
def jsonCharacterCount (stack : Nat) (value : Node) (limit : Option Int) (compact : Bool)
    (cache : Option Cache) : Option Int × Option Cache :=
  count (if compact then 1 else 2) value stack limit cache

/-! What is counted. -/

theorem eq_ofNat_iff {c d : Char} : c = d ↔ c.toNat = d.toNat :=
  ⟨fun h => h ▸ rfl, fun h => by rw [← Char.ofNat_toNat c, h, Char.ofNat_toNat]⟩

theorem length_escapeChar (c : Char) : (Json.escapeChar c).length = escapedCharacterLength c := by
  have h8 : (Char.ofNat 8).toNat = 8 := rfl
  have h12 : (Char.ofNat 12).toNat = 12 := rfl
  unfold Json.escapeChar escapedCharacterLength
  simp only [List.mem_cons, List.not_mem_nil, or_false, eq_ofNat_iff (d := Char.ofNat 8),
    eq_ofNat_iff (d := Char.ofNat 12), h8, h12]
  split_ifs <;> first | rfl | (exfalso; tauto)

theorem one_le_escapedCharacterLength (c : Char) : 1 ≤ escapedCharacterLength c := by
  unfold escapedCharacterLength
  split_ifs <;> omega

theorem length_flatMap_escapeChar (text : List Char) :
    (text.flatMap Json.escapeChar).length = (text.map escapedCharacterLength).sum := by
  simp only [List.length_flatMap, length_escapeChar]

def textLength (comma colon : List Char) (j : Json) : Int :=
  (j.chars comma colon).length

/-- What a saturating count of a text of a known length is. -/
def saturated (remaining : Option Int) (size : Int) : Int :=
  if isNegative remaining then 0 else cap remaining size

theorem exceeds_iff {size : Int} {remaining : Option Int} :
    exceeds size remaining = true ↔ ∃ r, remaining = some r ∧ r < size := by
  cases remaining <;> simp [exceeds]

theorem flatten_slices {width : Nat} (hw : 0 < width) (text : List Char) :
    (slices width text).flatten = text := by
  have htake : ∀ k, ((List.range k).map fun i => (text.drop (i * width)).take width).flatten =
      text.take (k * width) := by
    intro k
    induction k with
    | zero => simp
    | succ k ih =>
      rw [List.range_succ, List.map_append, List.flatten_append, ih, Nat.succ_mul, List.take_add]
      simp
  rw [slices, htake]
  apply List.take_of_length_le
  have hdiv := Nat.lt_div_mul_add hw (a := text.length + width - 1)
  omega

theorem countSlices_eq (sl : List (List Char)) (size : Int) (remaining : Option Int)
    (h : exceeds size remaining = false) :
    countSlices sl size remaining = cap remaining (size + (sl.flatten.flatMap Json.escapeChar).length) := by
  induction sl generalizing size with
  | nil =>
    cases remaining with
    | none => simp [countSlices, cap]
    | some r =>
      simp only [exceeds, Option.any_some, decide_eq_false_iff_not] at h
      simp only [countSlices, cap, List.flatten_nil, List.flatMap_nil, List.length_nil]
      omega
  | cons slice sl ih =>
    simp only [countSlices, List.flatten_cons, List.flatMap_append, List.length_append]
    cases hx : exceeds (size + (slice.flatMap Json.escapeChar).length) remaining with
    | false =>
      rw [if_neg (by simp), ih _ hx]
      congr 1
      omega
    | true =>
      obtain ⟨r, rfl, hr⟩ := exceeds_iff.1 hx
      simp only [if_true, overflow, Option.getD_some, cap]
      omega

theorem countString_eq (s : String) {remaining : Option Int} (h : isNegative remaining = false) :
    countString s remaining = cap remaining (Json.quote s).length := by
  have hq : ((Json.quote s).length : Int) = 2 + (s.toList.flatMap Json.escapeChar).length := by
    simp [Json.quote]
    omega
  have hle : s.toList.length ≤ (s.toList.flatMap Json.escapeChar).length := by
    rw [length_flatMap_escapeChar]
    exact List.length_le_sum_of_one_le _ (by simp [one_le_escapedCharacterLength]) |>.trans_eq' (by simp)
  unfold countString
  cases hx : exceeds (s.toList.length + 2) remaining with
  | true =>
    obtain ⟨r, rfl, hr⟩ := exceeds_iff.1 hx
    simp only [if_true, overflow, Option.getD_some, cap, hq]
    omega
  | false =>
    have h2 : exceeds 2 remaining = false := by
      cases remaining with
      | none => rfl
      | some r =>
        simp only [exceeds, Option.any_some, decide_eq_false_iff_not] at hx ⊢
        omega
    rw [if_neg (by simp), countSlices_eq _ _ _ h2, flatten_slices (by simp), hq]

section Spec

variable {comma colon : List Char}

/-- Every remembered count is right, or a lower bound where it is not exact. -/
def Sound (comma colon : List Char) (cache : Option Cache) : Prop :=
  ∀ entries, cache = some entries → ∀ e ∈ entries,
    if e.2.2.2 then e.2.2.1 = textLength comma colon e.2.1.plain
    else e.2.2.1 ≤ textLength comma colon e.2.1.plain

theorem sound_none : Sound comma colon none :=
  fun _ h => by cases h

theorem sound_nil : Sound comma colon (some []) := by
  rintro entries he e hm
  obtain rfl := Option.some.inj he
  simp at hm

theorem Sound.insert {cache : Option Cache} (h : Sound comma colon cache) (ident : Nat) (item : Node)
    {size : Int} {exact_ : Bool} (hnew : if exact_ then size = textLength comma colon item.plain
      else size ≤ textLength comma colon item.plain) :
    Sound comma colon (cache.map ((ident, item, size, exact_) :: ·)) := by
  intro entries he e hm
  obtain ⟨old, rfl, rfl⟩ := Option.map_eq_some_iff.1 he
  obtain rfl | hm := List.mem_cons.1 hm
  · exact hnew
  · exact h old rfl e hm

/-- The members of a list, with the separators before them. -/
def itemsLength (comma colon : List Char) : Bool → List Json → Int
  | _, [] => 0
  | first, x :: xs => (if first then 0 else (comma.length : Int)) + textLength comma colon x +
    itemsLength comma colon false xs

def fieldsLength (comma colon : List Char) : Bool → List (String × Json) → Int
  | _, [] => 0
  | first, (k, v) :: fs => (if first then 0 else (comma.length : Int)) + (Json.quote k).length +
    colon.length + textLength comma colon v + fieldsLength comma colon false fs

variable (comma colon) in
theorem itemsLength_nonneg (first : Bool) (xs : List Json) : 0 ≤ itemsLength comma colon first xs := by
  induction xs generalizing first with
  | nil => exact le_rfl
  | cons x xs ih =>
    have := ih false
    simp only [itemsLength, textLength]
    split <;> omega

variable (comma colon) in
theorem fieldsLength_nonneg (first : Bool) (fs : List (String × Json)) :
    0 ≤ fieldsLength comma colon first fs := by
  induction fs generalizing first with
  | nil => exact le_rfl
  | cons f fs ih =>
    obtain ⟨k, v⟩ := f
    have := ih false
    simp only [fieldsLength, textLength]
    split <;> omega

theorem length_charsItems (xs : List Json) :
    ((Json.charsItems comma colon xs).length : Int) = itemsLength comma colon true xs := by
  induction xs with
  | nil => rfl
  | cons x xs ih =>
    cases xs with
    | nil => simp [Json.charsItems, itemsLength, textLength]
    | cons y ys =>
      simp only [itemsLength, if_true, textLength] at ih ⊢
      simp only [Json.charsItems, List.length_append, Int.natCast_add, ih]
      simp only [Bool.false_eq_true, if_false]
      omega

theorem length_charsFields (fs : List (String × Json)) :
    ((Json.charsFields comma colon fs).length : Int) = fieldsLength comma colon true fs := by
  induction fs with
  | nil => rfl
  | cons f fs ih =>
    obtain ⟨k, v⟩ := f
    cases fs with
    | nil =>
      simp [Json.charsFields, fieldsLength, textLength]
      omega
    | cons g gs =>
      obtain ⟨l, w⟩ := g
      simp only [fieldsLength, if_true, textLength] at ih ⊢
      simp only [Json.charsFields, List.length_append, Int.natCast_add, ih]
      simp only [Bool.false_eq_true, if_false]
      omega

theorem textLength_arr (items : List Json) :
    textLength comma colon (.arr items) = 2 + itemsLength comma colon true items := by
  rw [← length_charsItems]
  simp only [textLength, Json.chars, List.length_append, List.length_cons, List.length_nil]
  omega

theorem textLength_obj (fields : List (String × Json)) :
    textLength comma colon (.obj fields) = 2 + fieldsLength comma colon true fields := by
  rw [← length_charsFields]
  simp only [textLength, Json.chars, List.length_append, List.length_cons, List.length_nil]
  omega

/-- A remembered count is what counting again would give. -/
theorem saved_eq {cache : Option Cache} (hs : Sound comma colon cache) {ident : Nat} {item : Node}
    {remaining : Option Int} {n : Int} (h : saved cache ident item remaining = some n)
    (hn : isNegative remaining = false) :
    n = saturated remaining (textLength comma colon item.plain) := by
  obtain ⟨entry, hentry, hif⟩ := Option.bind_eq_some_iff.1 h
  obtain ⟨entries, rfl, hl⟩ := Option.bind_eq_some_iff.1 hentry
  obtain ⟨hcond, hval⟩ := Option.ite_none_right_eq_some.1 hif
  obtain rfl := Option.some.inj hval
  simp only [Bool.and_eq_true, decide_eq_true_eq, Bool.or_eq_true] at hcond
  obtain ⟨hplain, hex⟩ := hcond
  have hmem : (ident, entry) ∈ entries := by
    obtain ⟨l₁, l₂, rfl, -⟩ := List.lookup_eq_some_iff.1 hl
    simp
  have hsound := hs entries rfl _ hmem
  rw [saturated, hn, if_neg (by simp), ← hplain]
  cases hx : entry.2.2 with
  | true =>
    rw [hx, if_pos rfl] at hsound
    rw [hsound]
  | false =>
    rw [hx, if_neg (by simp)] at hsound
    rw [hx] at hex
    obtain ⟨r, rfl, hr⟩ := exceeds_iff.1 (hex.resolve_left (by simp))
    simp only [cap]
    simp only at hsound
    omega

/-- What counting a value gives: nothing when the calls ran out, else its saturated length. -/
def Counted (comma colon : List Char) (item : Node) (remaining : Option Int)
    (result : Option Int × Option Cache) : Prop :=
  Sound comma colon result.2 ∧
    ∀ n, result.1 = some n → n = saturated remaining (textLength comma colon item.plain)

/-- What a loop gives, from a size so far that is within the bound. -/
def Looped (total : Int) (remaining : Option Int)
    (result : Option (Int × Bool)) : Prop :=
  ∀ n exact_, result = some (n, exact_) →
    (exact_ = true → n = total ∧ exceeds n remaining = false) ∧
    (exact_ = false → n ≤ total ∧ ∃ r, remaining = some r ∧ n = r + 1)

theorem counted_of_length {item : Node} {remaining : Option Int} {cache : Option Cache} {size : Int}
    (hs : Sound comma colon cache) (h : size = textLength comma colon item.plain) :
    Counted comma colon item remaining
      (some (if isNegative remaining then 0 else cap remaining size), cache) := by
  refine ⟨hs, fun n hn => ?_⟩
  obtain rfl := Option.some.inj hn
  rw [h]
  rfl

/-- A container, once its members are counted. -/
theorem counted_of_looped {item : Node} {ident : Nat} {remaining : Option Int}
    {result : Option (Int × Bool) × Option Cache} (hn : isNegative remaining = false)
    (hsound : Sound comma colon result.2)
    (hloop : Looped (textLength comma colon item.plain) remaining result.1) :
    Counted comma colon item remaining (result.1.map (·.1), match result.1 with
      | some entry => result.2.map ((ident, item, entry) :: ·)
      | none => result.2) := by
  obtain ⟨res, cache⟩ := result
  cases res with
  | none => exact ⟨hsound, fun n h => by cases h⟩
  | some entry =>
    obtain ⟨size, exact_⟩ := entry
    obtain ⟨hyes, hno⟩ := hloop size exact_ rfl
    refine ⟨?_, fun n h => ?_⟩
    · refine hsound.insert ident item ?_
      cases exact_ with
      | true => exact (hyes rfl).1
      | false => exact (hno rfl).1
    · obtain rfl := Option.some.inj h
      rw [saturated, hn, if_neg (by simp)]
      cases exact_ with
      | true =>
        obtain ⟨hval, hx⟩ := hyes rfl
        dsimp only at hval hx ⊢
        cases remaining with
        | none => exact hval
        | some r =>
          simp only [exceeds, Option.any_some, decide_eq_false_iff_not] at hx
          simp only [cap]
          omega
      | false =>
        obtain ⟨hval, r, rfl, hr⟩ := hno rfl
        dsimp only at hval hr ⊢
        simp only [cap]
        omega

/-- A count of a member under what is left never understates an overflow. -/
theorem saturated_rest {remaining : Option Int} {size n len : Int} (hlen : 0 ≤ len)
    (h : n = saturated (rest remaining size) len) :
    (exceeds (size + n) remaining = false → n = len) ∧
    (exceeds (size + n) remaining = true → ∃ r, remaining = some r ∧ r < size + len) := by
  subst h
  cases remaining with
  | none => simp [saturated, rest, isNegative, cap, exceeds]
  | some r =>
    simp only [exceeds, Option.any_some, decide_eq_false_iff_not, decide_eq_true_eq, saturated,
      isNegative, rest, Option.map_some, cap, Option.some.injEq, exists_eq_left']
    split <;> omega

theorem saturated_nonneg {remaining : Option Int} {len : Int} (h : 0 ≤ len) :
    0 ≤ saturated remaining len := by
  cases remaining with
  | none => simpa [saturated, isNegative, cap] using h
  | some r =>
    simp only [saturated, isNegative, Option.any_some, decide_eq_true_eq, cap]
    split <;> omega

mutual

/-- A count is the length of the text, saturated at the bound, whatever is remembered. -/
theorem count_spec {separator : Int} (hcomma : (comma.length : Int) = separator)
    (hcolon : (colon.length : Int) = separator) :
    (item : Node) → (stack : Nat) → (remaining : Option Int) → (cache : Option Cache) →
    Sound comma colon cache →
    Counted comma colon item remaining (count separator item stack remaining cache)
  | item, 0, remaining, cache, hs => by
    simp only [count]
    exact ⟨hs, fun n h => by cases h⟩
  | .null, _ + 1, remaining, cache, hs => counted_of_length hs rfl
  | .bool b, _ + 1, remaining, cache, hs => counted_of_length hs (by cases b <;> rfl)
  | .int n, _ + 1, remaining, cache, hs => counted_of_length hs rfl
  | .real m e, _ + 1, remaining, cache, hs => counted_of_length hs rfl
  | .str s, _ + 1, remaining, cache, hs => by
    refine ⟨hs, fun n h => ?_⟩
    obtain rfl := Option.some.inj h
    unfold saturated
    split
    · rfl
    · next hn => exact countString_eq s (by simpa using hn)
  | .arr ident items, stack + 1, remaining, cache, hs => by
    unfold count
    split
    · next hn =>
      refine ⟨hs, fun n h => ?_⟩
      obtain rfl := Option.some.inj h
      simp [saturated, hn]
    · next hn =>
      have hn : isNegative remaining = false := by simpa using hn
      split
      · next size hsaved =>
        refine ⟨hs, fun n h => ?_⟩
        obtain rfl := Option.some.inj h
        exact saved_eq hs hsaved hn
      · split
        · next hx =>
          refine ⟨hs, fun n h => ?_⟩
          obtain rfl := Option.some.inj h
          obtain ⟨r, rfl, hr⟩ := exceeds_iff.1 hx
          have hnn := itemsLength_nonneg comma colon true (Node.plainItems items)
          rw [saturated, hn, if_neg (by simp), Node.plain, textLength_arr]
          simp only [overflow, Option.getD_some, cap]
          omega
        · next hx =>
          have hloop := countItems_spec hcomma hcolon items stack remaining true 2 cache hs
            (by simpa using hx)
          exact counted_of_looped hn hloop.1 (by rw [Node.plain, textLength_arr]; exact hloop.2)
  | .obj ident fields, stack + 1, remaining, cache, hs => by
    unfold count
    split
    · next hn =>
      refine ⟨hs, fun n h => ?_⟩
      obtain rfl := Option.some.inj h
      simp [saturated, hn]
    · next hn =>
      have hn : isNegative remaining = false := by simpa using hn
      split
      · next size hsaved =>
        refine ⟨hs, fun n h => ?_⟩
        obtain rfl := Option.some.inj h
        exact saved_eq hs hsaved hn
      · split
        · next hx =>
          refine ⟨hs, fun n h => ?_⟩
          obtain rfl := Option.some.inj h
          obtain ⟨r, rfl, hr⟩ := exceeds_iff.1 hx
          have hnn := fieldsLength_nonneg comma colon true (Node.plainFields fields)
          rw [saturated, hn, if_neg (by simp), Node.plain, textLength_obj]
          simp only [overflow, Option.getD_some, cap]
          omega
        · next hx =>
          have hloop := countFields_spec hcomma hcolon fields stack remaining true 2 cache hs
            (by simpa using hx)
          exact counted_of_looped hn hloop.1 (by rw [Node.plain, textLength_obj]; exact hloop.2)

theorem countItems_spec {separator : Int} (hcomma : (comma.length : Int) = separator)
    (hcolon : (colon.length : Int) = separator) :
    (items : List Node) → (stack : Nat) → (remaining : Option Int) → (first : Bool) → (size : Int) →
    (cache : Option Cache) → Sound comma colon cache → exceeds size remaining = false →
    Sound comma colon (countItems separator items stack remaining first size cache).2 ∧
      Looped (size + itemsLength comma colon first (Node.plainItems items)) remaining
        (countItems separator items stack remaining first size cache).1
  | [], stack, remaining, first, size, cache, hs, hx => by
    refine ⟨hs, fun n ex h => ?_⟩
    obtain ⟨rfl, rfl⟩ := Prod.mk.inj (Option.some.inj h)
    exact ⟨fun _ => ⟨by simp [Node.plainItems, itemsLength], hx⟩, fun h => by cases h⟩
  | x :: xs, stack, remaining, first, size, cache, hs, hx => by
    have hsep : (if first then size else size + separator) =
        size + (if first then 0 else (comma.length : Int)) := by
      cases first <;> simp [hcomma]
    unfold countItems
    rw [hsep]
    dsimp only
    generalize hsize : size + (if first then 0 else (comma.length : Int)) = size'
    obtain ⟨hs', hval⟩ := count_spec hcomma hcolon x stack (rest remaining size') cache hs
    have hxlen : 0 ≤ textLength comma colon x.plain := Int.natCast_nonneg _
    have htail := itemsLength_nonneg comma colon false (Node.plainItems xs)
    split
    · next hc => exact ⟨by rw [hc] at hs'; exact hs', fun n ex h => by cases h⟩
    · next n cache' hc =>
      rw [hc] at hs' hval
      obtain ⟨hfit, hover⟩ := saturated_rest hxlen (hval n rfl)
      have htotal : size + itemsLength comma colon first (Node.plainItems (x :: xs)) =
          size' + textLength comma colon x.plain +
            itemsLength comma colon false (Node.plainItems xs) := by
        simp only [Node.plainItems, itemsLength]
        omega
      rw [htotal]
      cases hov : exceeds (size' + n) remaining with
      | true =>
        obtain ⟨r, rfl, hr⟩ := hover hov
        refine ⟨hs', fun m ex h => ?_⟩
        simp only [if_true, Option.some.injEq, Prod.mk.injEq, overflow, Option.getD_some] at h
        obtain ⟨rfl, rfl⟩ := h
        refine ⟨fun h => (by cases h), fun _ => ⟨?_, r, rfl, rfl⟩⟩
        omega
      | false =>
        have hih := countItems_spec hcomma hcolon xs stack remaining false (size' + n) cache' hs' hov
        rw [hfit hov] at hih ⊢
        rw [if_neg (by simp)]
        exact hih

theorem countFields_spec {separator : Int} (hcomma : (comma.length : Int) = separator)
    (hcolon : (colon.length : Int) = separator) :
    (fields : List (String × Node)) → (stack : Nat) → (remaining : Option Int) → (first : Bool) →
    (size : Int) → (cache : Option Cache) → Sound comma colon cache →
    exceeds size remaining = false →
    Sound comma colon (countFields separator fields stack remaining first size cache).2 ∧
      Looped (size + fieldsLength comma colon first (Node.plainFields fields)) remaining
        (countFields separator fields stack remaining first size cache).1
  | [], stack, remaining, first, size, cache, hs, hx => by
    refine ⟨hs, fun n ex h => ?_⟩
    obtain ⟨rfl, rfl⟩ := Prod.mk.inj (Option.some.inj h)
    exact ⟨fun _ => ⟨by simp [Node.plainFields, fieldsLength], hx⟩, fun h => by cases h⟩
  | (k, v) :: fs, stack, remaining, first, size, cache, hs, hx => by
    have hsep : (if first then size else size + separator) =
        size + (if first then 0 else (comma.length : Int)) := by
      cases first <;> simp [hcomma]
    unfold countFields
    rw [hsep]
    dsimp only
    generalize hsize : size + (if first then 0 else (comma.length : Int)) = size'
    split
    · exact ⟨hs, fun n ex h => by cases h⟩
    have hkey : (if isNegative (rest remaining size') then 0
        else countString k (rest remaining size')) =
        saturated (rest remaining size') (Json.quote k).length := by
      unfold saturated
      split
      · rfl
      · next hn => exact countString_eq k (by simpa using hn)
    rw [hkey]
    generalize hkeySize : saturated (rest remaining size') (Json.quote k).length = key
    have hklen : 0 ≤ ((Json.quote k).length : Int) := Int.natCast_nonneg _
    obtain ⟨hkfit, hkover⟩ := saturated_rest hklen hkeySize.symm
    obtain ⟨hs', hval⟩ := count_spec hcomma hcolon v stack
      (rest remaining (size' + key + separator)) cache hs
    have hvlen : 0 ≤ textLength comma colon v.plain := Int.natCast_nonneg _
    have htail := fieldsLength_nonneg comma colon false (Node.plainFields fs)
    split
    · next hc => exact ⟨by rw [hc] at hs'; exact hs', fun n ex h => by cases h⟩
    · next n cache' hc =>
      rw [hc] at hs' hval
      have hn : n = saturated (rest remaining (size' + key + separator))
        (textLength comma colon v.plain) := hval n rfl
      have hn0 : 0 ≤ n := by
        rw [hn]
        exact saturated_nonneg hvlen
      obtain ⟨hfit, hover⟩ := saturated_rest hvlen hn
      have htotal : size + fieldsLength comma colon first (Node.plainFields ((k, v) :: fs)) =
          size' + (Json.quote k).length + separator + textLength comma colon v.plain +
            fieldsLength comma colon false (Node.plainFields fs) := by
        simp only [Node.plainFields, fieldsLength]
        omega
      rw [htotal]
      cases hov : exceeds (size' + key + separator + n) remaining with
      | true =>
        have hr : ∃ r, remaining = some r ∧ r < size' + (Json.quote k).length + separator +
            textLength comma colon v.plain := by
          cases hk : exceeds (size' + key) remaining with
          | true =>
            obtain ⟨r, hr, hlt⟩ := hkover hk
            exact ⟨r, hr, by omega⟩
          | false =>
            obtain ⟨r, hr, hlt⟩ := hover hov
            rw [hkfit hk] at hlt
            exact ⟨r, hr, hlt⟩
        obtain ⟨r, rfl, hr⟩ := hr
        refine ⟨hs', fun m ex h => ?_⟩
        simp only [if_true, Option.some.injEq, Prod.mk.injEq, overflow, Option.getD_some] at h
        obtain ⟨rfl, rfl⟩ := h
        refine ⟨fun h => (by cases h), fun _ => ⟨?_, r, rfl, rfl⟩⟩
        omega
      | false =>
        have hk : exceeds (size' + key) remaining = false := by
          cases remaining with
          | none => rfl
          | some r =>
            simp only [exceeds, Option.any_some, decide_eq_false_iff_not] at hov ⊢
            omega
        have hih := countFields_spec hcomma hcolon fs stack remaining false
          (size' + key + separator + n) cache' hs' hov
        rw [hfit hov, hkfit hk] at hih ⊢
        rw [if_neg (by simp)]
        exact hih

end

end Spec

mutual

/-- A value no higher than the calls left is counted. -/
theorem count_isSome (separator : Int) : (item : Node) → (stack : Nat) → (remaining : Option Int) →
    (cache : Option Cache) → item.height ≤ stack →
    (count separator item stack remaining cache).1.isSome = true
  | item, 0, remaining, cache, h => by cases item <;> simp [Node.height] at h
  | .null, _ + 1, remaining, cache, _ => rfl
  | .bool _, _ + 1, remaining, cache, _ => rfl
  | .int _, _ + 1, remaining, cache, _ => rfl
  | .real _ _, _ + 1, remaining, cache, _ => rfl
  | .str _, _ + 1, remaining, cache, _ => rfl
  | .arr ident items, stack + 1, remaining, cache, h => by
    simp only [Node.height] at h
    unfold count
    split
    · rfl
    · split
      · rfl
      · split
        · rfl
        · simpa using countItems_isSome separator items stack remaining true 2 cache (by omega)
  | .obj ident fields, stack + 1, remaining, cache, h => by
    simp only [Node.height] at h
    unfold count
    split
    · rfl
    · split
      · rfl
      · split
        · rfl
        · simpa using countFields_isSome separator fields stack remaining true 2 cache (by omega)

theorem countItems_isSome (separator : Int) : (items : List Node) → (stack : Nat) →
    (remaining : Option Int) → (first : Bool) → (size : Int) → (cache : Option Cache) →
    Node.heightItems items ≤ stack →
    (countItems separator items stack remaining first size cache).1.isSome = true
  | [], stack, remaining, first, size, cache, _ => rfl
  | x :: xs, stack, remaining, first, size, cache, h => by
    simp only [Node.heightItems] at h
    unfold countItems
    dsimp only
    generalize (if first then size else size + separator) = size'
    have hx := count_isSome separator x stack (rest remaining size') cache (by omega)
    split
    · next hc =>
      rw [hc] at hx
      exact absurd hx (by simp)
    · split
      · rfl
      · exact countItems_isSome separator xs stack remaining false _ _ (by omega)

theorem countFields_isSome (separator : Int) : (fields : List (String × Node)) → (stack : Nat) →
    (remaining : Option Int) → (first : Bool) → (size : Int) → (cache : Option Cache) →
    Node.heightFields fields ≤ stack →
    (countFields separator fields stack remaining first size cache).1.isSome = true
  | [], stack, remaining, first, size, cache, _ => rfl
  | (k, v) :: fs, stack, remaining, first, size, cache, h => by
    simp only [Node.heightFields] at h
    have hpos : stack ≠ 0 := by
      have := v.height_pos
      omega
    unfold countFields
    dsimp only
    rw [if_neg hpos]
    generalize (if first then size else size + separator) = size'
    generalize (if isNegative (rest remaining size') then 0
      else countString k (rest remaining size')) = key
    have hx := count_isSome separator v stack (rest remaining (size' + key + separator)) cache
      (by omega)
    split
    · next hc =>
      rw [hc] at hx
      exact absurd hx (by simp)
    · split
      · rfl
      · exact countFields_isSome separator fs stack remaining false _ _ (by omega)

end

/-- The length of `json.dumps(value, ensure_ascii=False)`. -/
def dumpsLength (j : Json) : Int :=
  textLength [',', ' '] [':', ' '] j

/-- A count is right whenever there is one, and there is one for values that are not too high. -/
theorem jsonCharacterCount_spec (stack : Nat) (value : Node) (limit : Option Int)
    {cache : Option Cache} (hs : Sound [',', ' '] [':', ' '] cache) :
    Sound [',', ' '] [':', ' '] (jsonCharacterCount stack value limit false cache).2 ∧
    (∀ n, (jsonCharacterCount stack value limit false cache).1 = some n →
      n = saturated limit (dumpsLength value.plain)) ∧
    (value.height ≤ stack → (jsonCharacterCount stack value limit false cache).1 =
      some (saturated limit (dumpsLength value.plain))) := by
  have hcount : Counted [',', ' '] [':', ' '] value limit (count 2 value stack limit cache) :=
    count_spec (by rfl) (by rfl) value stack limit cache hs
  obtain ⟨hsound, hval⟩ := hcount
  refine ⟨hsound, hval, fun hh => ?_⟩
  obtain ⟨n, hn⟩ := Option.isSome_iff_exists.1 (count_isSome 2 value stack limit cache hh)
  exact hn.trans (congrArg some (hval n hn))

end Yuki.ToolResults

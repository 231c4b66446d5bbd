import Yuki.Lib.JsonNumbers

/-! A rendered value is read back as it was. -/

namespace Yuki.Json

/-! Strings. -/

theorem hexValue_hexDigit {n : Nat} (hn : n < 16) : hexValue (hexDigit n) = some n := by
  have hall : ∀ k < 16, hexValue (hexDigit k) = some k := by decide
  exact hall n hn

/-- A control character without an escape of its own is written by its number. -/
theorem readChars_control {c : Char} (hc : c.toNat < 32) (fuel : Nat) (acc cs : List Char) :
    readChars (fuel + 1) acc ('\\' :: 'u' :: '0' :: '0' :: hexDigit (c.toNat / 16) ::
      hexDigit (c.toNat % 16) :: cs) = readChars fuel (c :: acc) cs := by
  have hhigh := hexValue_hexDigit (n := c.toNat / 16) (by omega)
  have hlow := hexValue_hexDigit (n := c.toNat % 16) (by omega)
  have hzero : hexValue '0' = some 0 := rfl
  have hvalue : c.toNat / 16 * 16 + c.toNat % 16 = c.toNat := by omega
  have hhex : readHex4 ('0' :: '0' :: hexDigit (c.toNat / 16) :: hexDigit (c.toNat % 16) :: cs) =
      some (c.toNat, cs) := by
    simp [readHex4, hhigh, hlow, hzero, hvalue]
  have hplain : ¬ (0xD800 ≤ c.toNat ∧ c.toNat < 0xDC00) := by omega
  rw [readChars]
  simp only [hhex, Option.bind_eq_bind, Option.bind_some, if_neg hplain, Char.ofNat_toNat]

theorem readChars_escapeChar (c : Char) (fuel : Nat) (acc cs : List Char) :
    readChars (fuel + 1) acc (escapeChar c ++ cs) = readChars fuel (c :: acc) cs := by
  have hof : ∀ n, c.toNat = n → c = Char.ofNat n := fun n hn => by
    rw [← hn, Char.ofNat_toNat]
  unfold escapeChar
  split
  · rename_i h
    rw [h]
    rfl
  split
  · rename_i h
    rw [h]
    rfl
  split
  · rename_i h
    rw [h]
    rfl
  split
  · rename_i h
    rw [h]
    rfl
  split
  · rename_i h
    rw [h]
    rfl
  split
  · rename_i h
    rw [hof 8 h]
    rfl
  split
  · rename_i h
    rw [hof 12 h]
    rfl
  split
  · rename_i h
    exact readChars_control h fuel acc cs
  · rename_i hquote hslash _ _ _ _ _ hlow
    rw [List.singleton_append]
    rw [readChars]
    · simp [hquote, hlow]
    · exact fun _ _ h _ => hslash h

theorem readChars_escaped (cs : List Char) (acc rest : List Char) {fuel : Nat}
    (hfuel : cs.length < fuel) :
    readChars fuel acc (cs.flatMap escapeChar ++ '"' :: rest) =
      some (String.ofList (acc.reverse ++ cs), rest) := by
  induction cs generalizing acc fuel with
  | nil =>
    cases fuel with
    | zero => omega
    | succ fuel => simp [readChars]
  | cons c cs ih =>
    cases fuel with
    | zero => omega
    | succ fuel =>
      rw [List.flatMap_cons, List.append_assoc, readChars_escapeChar,
        ih (c :: acc) (Nat.lt_of_succ_lt_succ hfuel)]
      simp

theorem length_le_flatMap_escapeChar (cs : List Char) :
    cs.length ≤ (cs.flatMap escapeChar).length := by
  induction cs with
  | nil => exact Nat.le_refl 0
  | cons c cs ih =>
    have hpos : 0 < (escapeChar c).length := by
      unfold escapeChar
      split_ifs <;> simp
    rw [List.flatMap_cons, List.length_append, List.length_cons]
    omega

theorem quote_append (s : String) (rest : List Char) :
    quote s ++ rest = '"' :: (s.toList.flatMap escapeChar ++ '"' :: rest) := by
  simp [quote]

theorem readChars_quote (s : String) (rest : List Char) :
    readChars ((s.toList.flatMap escapeChar ++ '"' :: rest).length + 1) []
      (s.toList.flatMap escapeChar ++ '"' :: rest) = some (s, rest) := by
  have hlength := length_le_flatMap_escapeChar s.toList
  rw [readChars_escaped s.toList [] rest]
  · simp
  · rw [List.length_append, List.length_cons]
    omega

/-! Values. -/

mutual

/-- A value as a program holds it: floats in their shortest decimal, every key once. -/
def Written : Json → Prop
  | .real m e => Shortest m e
  | .arr xs => WrittenItems xs
  | .obj fs => (fs.map (·.1)).Nodup ∧ WrittenFields fs
  | _ => True

def WrittenItems : List Json → Prop
  | [] => True
  | x :: xs => Written x ∧ WrittenItems xs

def WrittenFields : List (String × Json) → Prop
  | [] => True
  | (_, v) :: fs => Written v ∧ WrittenFields fs

end

def isBlank (c : Char) : Bool :=
  c = ' ' ∨ c = '\n' ∨ c = '\r' ∨ c = '\t'

/-- A mark, and blanks behind it. -/
structure Separator (mark : Char) (text : List Char) : Prop where
  eq : ∃ blanks, text = mark :: blanks ∧ ∀ c ∈ blanks, isBlank c = true

theorem skipBlank_of_not {c : Char} (cs : List Char) (h : isBlank c = false) :
    skipBlank (c :: cs) = c :: cs := by
  have hc : ¬ (c = ' ' ∨ c = '\n' ∨ c = '\r' ∨ c = '\t') := by
    simpa [isBlank] using h
  rw [skipBlank, if_neg hc]

theorem skipBlank_blanks {blanks : List Char} (h : ∀ c ∈ blanks, isBlank c = true)
    (cs : List Char) : skipBlank (blanks ++ cs) = skipBlank cs := by
  induction blanks with
  | nil => rfl
  | cons b blanks ih =>
    have hb : b = ' ' ∨ b = '\n' ∨ b = '\r' ∨ b = '\t' := by
      simpa [isBlank] using h b List.mem_cons_self
    rw [List.cons_append, skipBlank, if_pos hb,
      ih fun c hc => h c (List.mem_cons_of_mem _ hc)]

theorem skipBlank_skipBlank (cs : List Char) : skipBlank (skipBlank cs) = skipBlank cs := by
  induction cs with
  | nil => rfl
  | cons c cs ih =>
    by_cases hc : isBlank c = true
    · have hskip : skipBlank (c :: cs) = skipBlank cs :=
        skipBlank_blanks (List.forall_mem_singleton.mpr hc) cs
      rw [hskip, ih]
    · rw [skipBlank_of_not cs (by simpa using hc), skipBlank_of_not cs (by simpa using hc)]

theorem readValue_skipBlank (fuel : Nat) (cs : List Char) :
    readValue fuel (skipBlank cs) = readValue fuel cs := by
  cases fuel with
  | zero => rfl
  | succ fuel => simp only [readValue, skipBlank_skipBlank]

theorem readFields_skipBlank (fuel : Nat) (cs : List Char) :
    readFields fuel (skipBlank cs) = readFields fuel cs := by
  cases fuel with
  | zero => rfl
  | succ fuel => simp only [readFields, skipBlank_skipBlank]

/-- What a number begins with. -/
theorem head_of_readNumber {cs : List Char} {r : Json × List Char} (h : readNumber cs = some r) :
    ∃ c rest, cs = c :: rest ∧ (c = '-' ∨ c.isDigit = true) := by
  cases cs with
  | nil => cases h
  | cons c cs =>
    refine ⟨c, cs, rfl, ?_⟩
    by_cases hminus : c = '-'
    · exact .inl hminus
    · by_cases hdigit : c.isDigit = true
      · exact .inr hdigit
      · have hread : readDigits (c :: cs) = ([], c :: cs) := by simp [readDigits, hdigit]
        unfold readNumber at h
        simp [hminus, hread] at h

theorem readValue_of_number {cs : List Char} {r : Json × List Char} (h : readNumber cs = some r)
    (fuel : Nat) : readValue (fuel + 1) cs = some r := by
  obtain ⟨c, rest, rfl, hc⟩ := head_of_readNumber h
  have hne : ∀ d ∈ [' ', '\n', '\r', '\t', 'n', 't', 'f', '"', '[', '{'], c ≠ d := by
    rintro d hd rfl
    obtain rfl | hc := hc
    · simp at hd
    · have hall : [' ', '\n', '\r', '\t', 'n', 't', 'f', '"', '[', '{'].all
          (! Char.isDigit ·) = true := rfl
      have hnot := List.all_eq_true.mp hall c hd
      rw [hc] at hnot
      cases hnot
  simp only [List.mem_cons, List.not_mem_nil, or_false, forall_eq_or_imp, forall_eq] at hne
  have hblank : isBlank c = false := by simp [isBlank, hne]
  rw [readValue, skipBlank_of_not rest hblank]
  simp [hne, h]

theorem ends_nil : Ends [] := fun _ h => by cases h

theorem Separator.ends {mark : Char} {text : List Char} (h : Separator mark text)
    (hmark : mark.isDigit = false ∧ mark ≠ '.' ∧ mark ≠ 'e' ∧ mark ≠ 'E') (rest : List Char) :
    Ends (text ++ rest) := by
  obtain ⟨blanks, rfl, -⟩ := h.eq
  exact ends_of _ hmark

section Separators

variable {comma colon : List Char}

/-- A value begins with no blank and no closing bracket. -/
theorem chars_opens (comma colon : List Char) {j : Json} (h : Written j) :
    ∃ c cs, j.chars comma colon = c :: cs ∧ isBlank c = false ∧ c ≠ ']' := by
  have hnumber : ∀ {cs : List Char} {r : Json × List Char}, readNumber cs = some r →
      ∃ c rest, cs = c :: rest ∧ isBlank c = false ∧ c ≠ ']' := by
    intro cs r hread
    obtain ⟨c, rest, hcs, hc⟩ := head_of_readNumber hread
    refine ⟨c, rest, hcs, ?_⟩
    obtain rfl | hc := hc
    · exact ⟨rfl, by decide⟩
    · have hall : [' ', '\n', '\r', '\t', ']'].all (! Char.isDigit ·) = true := rfl
      have hne : ∀ d ∈ [' ', '\n', '\r', '\t', ']'], c ≠ d := by
        rintro d hd rfl
        have hnot := List.all_eq_true.mp hall c hd
        rw [hc] at hnot
        cases hnot
      simp only [List.mem_cons, List.not_mem_nil, or_false, forall_eq_or_imp, forall_eq] at hne
      simp [isBlank, hne]
  cases j with
  | null => exact ⟨_, _, rfl, rfl, by decide⟩
  | bool b => cases b <;> exact ⟨_, _, rfl, rfl, by decide⟩
  | int n =>
    have hread := readNumber_int n ends_nil
    rw [List.append_nil] at hread
    exact hnumber hread
  | real m e =>
    have hread := readNumber_real h ends_nil
    rw [List.append_nil] at hread
    exact hnumber hread
  | str s => exact ⟨_, _, rfl, rfl, by decide⟩
  | arr xs => exact ⟨_, _, rfl, rfl, by decide⟩
  | obj fs => exact ⟨_, _, rfl, rfl, by decide⟩

theorem readItems_blanks {blanks : List Char} (h : ∀ c ∈ blanks, isBlank c = true) (fuel : Nat)
    (cs : List Char) : readItems fuel (blanks ++ cs) = readItems fuel cs := by
  cases fuel with
  | zero => rfl
  | succ fuel =>
    rw [readItems, readItems, ← readValue_skipBlank, skipBlank_blanks h, readValue_skipBlank]

theorem readFields_blanks {blanks : List Char} (h : ∀ c ∈ blanks, isBlank c = true) (fuel : Nat)
    (cs : List Char) : readFields fuel (blanks ++ cs) = readFields fuel cs := by
  rw [← readFields_skipBlank, skipBlank_blanks h, readFields_skipBlank]

theorem readValue_blanks {blanks : List Char} (h : ∀ c ∈ blanks, isBlank c = true) (fuel : Nat)
    (cs : List Char) : readValue fuel (blanks ++ cs) = readValue fuel cs := by
  rw [← readValue_skipBlank, skipBlank_blanks h, readValue_skipBlank]

/-- The items go on behind a value. -/
theorem readItems_cons (hcomma : Separator ',' comma) {fuel : Nat} {x : Json} {xs : List Json}
    {cs rest rest' : List Char} (hx : readValue fuel cs = some (x, comma ++ rest))
    (hxs : readItems fuel rest = some (xs, rest')) :
    readItems (fuel + 1) cs = some (x :: xs, rest') := by
  obtain ⟨blanks, rfl, hblanks⟩ := hcomma.eq
  rw [readItems, hx]
  simp only [Option.bind_eq_bind, Option.bind_some, List.cons_append,
    skipBlank_of_not (c := ',') _ (by decide), readItems_blanks hblanks, hxs]

theorem readItems_single {fuel : Nat} {x : Json} {cs rest : List Char}
    (hx : readValue fuel cs = some (x, ']' :: rest)) :
    readItems (fuel + 1) cs = some ([x], rest) := by
  rw [readItems, hx]
  simp only [Option.bind_eq_bind, Option.bind_some, skipBlank_of_not (c := ']') _ (by decide)]

/-- The members go on behind one whose key does not come again. -/
theorem readFields_cons (hcomma : Separator ',' comma) (hcolon : Separator ':' colon)
    {fuel : Nat} {k : String} {v : Json} {fs : List (String × Json)} {cs rest rest' : List Char}
    (hv : readValue fuel cs = some (v, comma ++ rest))
    (hfs : readFields fuel rest = some (fs, rest')) (hk : fs.lookup k = none) :
    readFields (fuel + 1) (quote k ++ (colon ++ cs)) = some ((k, v) :: fs, rest') := by
  obtain ⟨blanks, rfl, hblanks⟩ := hcomma.eq
  obtain ⟨blanks', rfl, hblanks'⟩ := hcolon.eq
  rw [quote_append, readFields, skipBlank_of_not _ (by decide)]
  simp only [readChars_quote, Option.bind_eq_bind, Option.bind_some, List.cons_append,
    skipBlank_of_not (c := ':') _ (by decide), readValue_blanks hblanks', hv,
    skipBlank_of_not (c := ',') _ (by decide), readFields_blanks hblanks, hfs, hk,
    Option.isSome_none, Bool.false_eq_true, if_false]

theorem readFields_single (hcolon : Separator ':' colon) {fuel : Nat} {k : String} {v : Json}
    {cs rest : List Char} (hv : readValue fuel cs = some (v, '}' :: rest)) :
    readFields (fuel + 1) (quote k ++ (colon ++ cs)) = some ([(k, v)], rest) := by
  obtain ⟨blanks', rfl, hblanks'⟩ := hcolon.eq
  rw [quote_append, readFields, skipBlank_of_not _ (by decide)]
  simp only [readChars_quote, Option.bind_eq_bind, Option.bind_some, List.cons_append,
    skipBlank_of_not (c := ':') _ (by decide), readValue_blanks hblanks', hv,
    skipBlank_of_not (c := '}') _ (by decide)]

theorem charsItems_cons (x y : Json) (ys : List Json) : charsItems comma colon (x :: y :: ys) =
    chars comma colon x ++ comma ++ charsItems comma colon (y :: ys) := by
  rw [charsItems]
  simp

theorem charsFields_cons (k : String) (v : Json) (g : String × Json)
    (gs : List (String × Json)) : charsFields comma colon ((k, v) :: g :: gs) =
    quote k ++ colon ++ chars comma colon v ++ comma ++ charsFields comma colon (g :: gs) := by
  rw [charsFields]
  simp

theorem Separator.length_pos {mark : Char} {text : List Char} (h : Separator mark text) :
    0 < text.length := by
  obtain ⟨blanks, rfl, -⟩ := h.eq
  exact Nat.succ_pos _

theorem lookup_eq_none {k : String} {fs : List (String × Json)} (h : k ∉ fs.map (·.1)) :
    fs.lookup k = none := by
  rw [List.lookup_eq_none_iff]
  intro f hf
  have hne : k ≠ f.1 := fun he => h (he ▸ List.mem_map_of_mem hf)
  simpa using hne

theorem charsItems_opens (comma colon : List Char) {x : Json} (xs : List Json) (h : Written x) :
    ∃ c cs, charsItems comma colon (x :: xs) = c :: cs ∧ isBlank c = false ∧ c ≠ ']' := by
  obtain ⟨c, cs, hcs, hc⟩ := chars_opens comma colon h
  cases xs with
  | nil => exact ⟨c, cs, hcs, hc⟩
  | cons y ys =>
    refine ⟨c, cs ++ comma ++ charsItems comma colon (y :: ys), ?_, hc⟩
    rw [charsItems_cons, hcs]
    rfl

theorem charsFields_opens (comma colon : List Char) (f : String × Json)
    (fs : List (String × Json)) :
    ∃ cs, charsFields comma colon (f :: fs) = '"' :: cs := by
  obtain ⟨k, v⟩ := f
  cases fs with
  | nil => exact ⟨_, rfl⟩
  | cons g gs => exact ⟨_, rfl⟩

theorem fuel_of_length {j : Json} (h : Written j) {fuel : Nat}
    (hfuel : (j.chars comma colon).length ≤ fuel) : ∃ n, fuel = n + 1 := by
  obtain ⟨c, cs, hcs, -⟩ := chars_opens comma colon h
  rw [hcs, List.length_cons] at hfuel
  exact Nat.exists_eq_succ_of_ne_zero (by omega)

mutual

/-- A written value is read back from its text, whatever stands behind it. -/
theorem readValue_chars (hcomma : Separator ',' comma) (hcolon : Separator ':' colon) :
    (j : Json) → Written j → ∀ {fuel : Nat} {rest : List Char}, Ends rest →
      (j.chars comma colon).length ≤ fuel →
      readValue fuel (j.chars comma colon ++ rest) = some (j, rest)
  | .null, _, fuel, rest, _, hfuel => by
    obtain ⟨fuel, rfl⟩ := fuel_of_length (by trivial) hfuel
    rfl
  | .bool b, _, fuel, rest, _, hfuel => by
    obtain ⟨fuel, rfl⟩ := fuel_of_length (by trivial) hfuel
    cases b <;> rfl
  | .int n, _, fuel, rest, hrest, hfuel => by
    obtain ⟨fuel, rfl⟩ := fuel_of_length (by trivial) hfuel
    exact readValue_of_number (readNumber_int n hrest) fuel
  | .real m e, h, fuel, rest, hrest, hfuel => by
    obtain ⟨fuel, rfl⟩ := fuel_of_length (by trivial) hfuel
    exact readValue_of_number (readNumber_real h hrest) fuel
  | .str s, _, fuel, rest, _, hfuel => by
    obtain ⟨fuel, rfl⟩ := fuel_of_length (by trivial) hfuel
    have hread := readChars_quote s rest
    rw [chars, quote_append, readValue, skipBlank_of_not _ (by decide)]
    change Option.map _ (readChars _ [] _) = _
    rw [hread]
    rfl
  | .arr xs, h, fuel, rest, _, hfuel => by
    obtain ⟨fuel, rfl⟩ := fuel_of_length (by trivial) hfuel
    cases xs with
    | nil => rfl
    | cons x xs =>
      have hlength : (charsItems comma colon (x :: xs)).length < fuel := by
        simp only [chars, List.length_append, List.length_cons] at hfuel
        omega
      have hread := readItems_chars hcomma hcolon (x :: xs) (List.cons_ne_nil _ _) h rest hlength
      obtain ⟨c, cs, hcs, hblank, hclose⟩ :=
        charsItems_opens comma colon xs h.1
      rw [hcs] at hread
      simp only [chars, hcs, List.cons_append, List.append_assoc, List.nil_append] at hread ⊢
      rw [readValue, skipBlank_of_not _ (by decide)]
      simp only [skipBlank_of_not _ hblank]
      split
      · rename_i heq
        exact absurd (List.cons.inj heq).1 hclose
      · rw [hread]
        rfl
  | .obj fs, h, fuel, rest, _, hfuel => by
    obtain ⟨fuel, rfl⟩ := fuel_of_length (by trivial) hfuel
    cases fs with
    | nil => rfl
    | cons f fs =>
      have hlength : (charsFields comma colon (f :: fs)).length < fuel := by
        simp only [chars, List.length_append, List.length_cons] at hfuel
        omega
      have hread := readFields_chars hcomma hcolon (f :: fs) (List.cons_ne_nil _ _) h.1 h.2 rest
        hlength
      obtain ⟨cs, hcs⟩ := charsFields_opens comma colon f fs
      rw [hcs] at hread
      simp only [chars, hcs, List.cons_append, List.append_assoc, List.nil_append] at hread ⊢
      rw [readValue, skipBlank_of_not _ (by decide)]
      simp only [skipBlank_of_not (c := '"') _ (by decide)]
      change Option.map _ (readFields fuel _) = _
      rw [hread]
      rfl

theorem readItems_chars (hcomma : Separator ',' comma) (hcolon : Separator ':' colon) :
    (xs : List Json) → xs ≠ [] → WrittenItems xs → ∀ {fuel : Nat} (rest : List Char),
      (charsItems comma colon xs).length < fuel →
      readItems fuel (charsItems comma colon xs ++ ']' :: rest) = some (xs, rest)
  | [], hne, _, _, _, _ => absurd rfl hne
  | [x], _, h, fuel, rest, hfuel => by
    obtain ⟨fuel, rfl⟩ := Nat.exists_eq_succ_of_ne_zero (Nat.ne_zero_of_lt hfuel)
    exact readItems_single (readValue_chars hcomma hcolon x h.1
      (ends_of rest (by decide)) (Nat.le_of_lt_succ hfuel))
  | x :: y :: ys, _, h, fuel, rest, hfuel => by
    obtain ⟨fuel, rfl⟩ := Nat.exists_eq_succ_of_ne_zero (Nat.ne_zero_of_lt hfuel)
    have hpos := hcomma.length_pos
    rw [charsItems_cons, List.length_append, List.length_append] at hfuel
    have hlength : (charsItems comma colon (y :: ys)).length < fuel := by omega
    have hrest := readItems_chars hcomma hcolon (y :: ys) (List.cons_ne_nil _ _) h.2 rest hlength
    rw [charsItems_cons, List.append_assoc, List.append_assoc]
    exact readItems_cons hcomma (readValue_chars hcomma hcolon x h.1
      (hcomma.ends (by decide) _) (by omega)) hrest

theorem readFields_chars (hcomma : Separator ',' comma) (hcolon : Separator ':' colon) :
    (fs : List (String × Json)) → fs ≠ [] → (fs.map (·.1)).Nodup → WrittenFields fs →
      ∀ {fuel : Nat} (rest : List Char), (charsFields comma colon fs).length < fuel →
      readFields fuel (charsFields comma colon fs ++ '}' :: rest) = some (fs, rest)
  | [], hne, _, _, _, _, _ => absurd rfl hne
  | [(k, v)], _, _, h, fuel, rest, hfuel => by
    obtain ⟨fuel, rfl⟩ := Nat.exists_eq_succ_of_ne_zero (Nat.ne_zero_of_lt hfuel)
    rw [charsFields] at hfuel ⊢
    simp only [List.length_append] at hfuel
    rw [List.append_assoc, List.append_assoc]
    exact readFields_single hcolon (readValue_chars hcomma hcolon v h.1
      (ends_of rest (by decide)) (by omega))
  | (k, v) :: g :: gs, _, hkeys, h, fuel, rest, hfuel => by
    obtain ⟨fuel, rfl⟩ := Nat.exists_eq_succ_of_ne_zero (Nat.ne_zero_of_lt hfuel)
    have hpos := hcomma.length_pos
    obtain ⟨hk, hkeys⟩ := List.nodup_cons.mp hkeys
    rw [charsFields_cons] at hfuel ⊢
    simp only [List.length_append] at hfuel
    have hlength : (charsFields comma colon (g :: gs)).length < fuel := by omega
    have hrest := readFields_chars hcomma hcolon (g :: gs) (List.cons_ne_nil _ _) hkeys h.2 rest
      hlength
    simp only [List.append_assoc] at hrest ⊢
    exact readFields_cons hcomma hcolon (readValue_chars hcomma hcolon v h.1
      (hcomma.ends (by decide) _) (by omega)) hrest (lookup_eq_none hk)

end

end Separators

theorem separator_single (mark : Char) : Separator mark [mark] :=
  ⟨[], rfl, by simp⟩

theorem separator_blank (mark : Char) : Separator mark [mark, ' '] :=
  ⟨[' '], rfl, by simp [isBlank]⟩

theorem loads_chars {comma colon : List Char} (hcomma : Separator ',' comma)
    (hcolon : Separator ':' colon) {j : Json} (h : Written j) :
    loads (String.ofList (j.chars comma colon)) = some j := by
  have hread := readValue_chars hcomma hcolon j h ends_nil (Nat.le_succ _)
  rw [List.append_nil] at hread
  rw [loads, String.toList_ofList, String.length_ofList, hread]
  rfl

theorem loads_dumps {j : Json} (h : Written j) : loads j.dumps = some j :=
  loads_chars (separator_blank ',') (separator_blank ':') h

theorem loads_minify {j : Json} (h : Written j) : loads j.minify = some j :=
  loads_chars (separator_single ',') (separator_single ':') h

end Yuki.Json

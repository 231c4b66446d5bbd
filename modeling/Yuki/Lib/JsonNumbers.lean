import Mathlib.Algebra.Group.Int.Defs
import Mathlib.Data.List.Basic
import Yuki.Lib.JsonText

/-! A number that was rendered is read back as it was. -/

namespace Yuki.Json

/-! Digits. -/

def Digits (ds : List Char) : Prop :=
  ∀ c ∈ ds, c.isDigit = true

theorem digits_toDigits (n : Nat) : Digits (Nat.toDigits 10 n) :=
  fun _ hc => Nat.isDigit_of_mem_toDigits (by decide) (by decide) hc

theorem Digits.append {ds es : List Char} (h : Digits ds) (h' : Digits es) : Digits (ds ++ es) :=
  fun c hc => (List.mem_append.mp hc).elim (h c) (h' c)

theorem digits_replicate_zero (n : Nat) : Digits (List.replicate n '0') := by
  intro c hc
  rw [List.eq_of_mem_replicate hc]
  rfl

theorem Digits.take {ds : List Char} (h : Digits ds) (n : Nat) : Digits (ds.take n) :=
  fun c hc => h c (List.mem_of_mem_take hc)

theorem Digits.drop {ds : List Char} (h : Digits ds) (n : Nat) : Digits (ds.drop n) :=
  fun c hc => h c (List.mem_of_mem_drop hc)

theorem toList_toString (n : Nat) : (toString n).toList = Nat.toDigits 10 n := by
  rw [Nat.toString_eq_repr, Nat.toList_repr]

/-- The text goes on without a digit. -/
def NoDigit (rest : List Char) : Prop :=
  ∀ c ∈ rest.head?, c.isDigit = false

theorem readDigits_append {ds rest : List Char} (h : Digits ds) (hrest : NoDigit rest) :
    readDigits (ds ++ rest) = (ds, rest) := by
  induction ds with
  | nil =>
    cases rest with
    | nil => rfl
    | cons c cs => simp [readDigits, hrest c rfl]
  | cons d ds ih =>
    have hd := h d List.mem_cons_self
    simp [readDigits, hd, ih fun c hc => h c (List.mem_cons_of_mem _ hc)]

theorem digitsValue_eq (ds : List Char) : digitsValue ds = Nat.ofDigitChars 10 ds 0 := by
  rw [digitsValue, Nat.ofDigitChars_eq_foldl]
  refine List.foldl_ext _ _ _ fun n c _ => ?_
  rw [Nat.mul_comm]
  rfl

theorem digitsValue_toDigits (n : Nat) : digitsValue (Nat.toDigits 10 n) = n := by
  rw [digitsValue_eq, Nat.ofDigitChars_ten_toDigits]

theorem digitsValue_zeros_append (n : Nat) (ds : List Char) :
    digitsValue (List.replicate n '0' ++ ds) = digitsValue ds := by
  rw [digitsValue_eq, digitsValue_eq, Nat.ofDigitChars_append, Nat.ofDigitChars_replicate_zero,
    Nat.mul_zero]

theorem digitsValue_append_zeros (ds : List Char) (n : Nat) :
    digitsValue (ds ++ List.replicate n '0') = digitsValue ds * 10 ^ n := by
  rw [digitsValue_eq, digitsValue_eq, Nat.ofDigitChars_append, Nat.ofDigitChars_replicate_zero,
    Nat.mul_comm]

/-- No leading zero, but for zero itself. -/
def Whole (ds : List Char) : Prop :=
  ds ≠ [] ∧ (ds.head? = some '0' → ds = ['0'])

theorem digitChar_ne_zero {n : Nat} (hn : n ≠ 0) (hlt : n < 10) : Nat.digitChar n ≠ '0' := by
  have hall : ∀ k < 10, k ≠ 0 → Nat.digitChar k ≠ '0' := by decide
  exact hall n hlt hn

theorem head?_toDigits {n : Nat} (hn : n ≠ 0) : (Nat.toDigits 10 n).head? ≠ some '0' := by
  induction n using Nat.strongRecOn with
  | ind n ih =>
    rw [Nat.toDigits_eq_if (by decide)]
    split
    · rename_i hlt
      rw [List.head?_cons]
      exact fun h => digitChar_ne_zero hn hlt (Option.some.inj h)
    · rename_i hge
      rw [List.head?_append_of_ne_nil _ Nat.toDigits_ne_nil]
      exact ih (n / 10) (Nat.div_lt_self (Nat.pos_of_ne_zero hn) (by decide)) (by omega)

theorem whole_toDigits (n : Nat) : Whole (Nat.toDigits 10 n) := by
  refine ⟨Nat.toDigits_ne_nil, fun hzero => ?_⟩
  by_cases hn : n = 0
  · rw [hn, Nat.toDigits_zero]
  · exact absurd hzero (head?_toDigits hn)

/-! The parts of a number. -/

def signText (negative : Bool) : List Char :=
  if negative then ['-'] else []

def fractionText : Option (List Char) → List Char
  | some ds => '.' :: ds
  | none => []

def exponentText : Option (Bool × List Char) → List Char
  | some (negative, ds) => 'e' :: (if negative then '-' else '+') :: ds
  | none => []

def exponentValue : Option (Bool × List Char) → Option Int
  | some (negative, ds) => some (if negative then -(digitsValue ds : Int) else digitsValue ds)
  | none => none

/-- What `readNumber` makes of these parts. -/
def numberOf (negative : Bool) (whole : List Char) (fraction : Option (List Char))
    (exponent : Option (Bool × List Char)) : Json :=
  let sign : Int := if negative then -1 else 1
  if fraction.isNone ∧ exponent.isNone then .int (sign * digitsValue whole)
  else
    let decimals := fraction.getD []
    shortReal (whole ++ decimals).length (sign * digitsValue (whole ++ decimals))
      ((exponentValue exponent).getD 0 - decimals.length)

/-- The text behind a number begins with none of its characters. -/
def Ends (rest : List Char) : Prop :=
  ∀ c ∈ rest.head?, c.isDigit = false ∧ c ≠ '.' ∧ c ≠ 'e' ∧ c ≠ 'E'

theorem Ends.noDigit {rest : List Char} (h : Ends rest) : NoDigit rest :=
  fun c hc => (h c hc).1

theorem ends_of {c : Char} (rest : List Char)
    (h : c.isDigit = false ∧ c ≠ '.' ∧ c ≠ 'e' ∧ c ≠ 'E') : Ends (c :: rest) := by
  intro d hd
  cases Option.some.inj (Option.mem_def.mp hd)
  exact h

theorem readExponent_text {exponent : Option (Bool × List Char)} {rest : List Char}
    (h : ∀ part ∈ exponent, Digits part.2 ∧ part.2 ≠ []) (hrest : Ends rest) :
    readExponent (exponentText exponent ++ rest) = some (exponentValue exponent, rest) := by
  cases exponent with
  | none =>
    cases rest with
    | nil => rfl
    | cons c cs =>
      obtain ⟨-, -, he, hE⟩ := hrest c rfl
      simp [exponentText, readExponent, he, hE, exponentValue]
  | some part =>
    obtain ⟨negative, ds⟩ := part
    obtain ⟨hd, hne⟩ := h _ rfl
    have hread := readDigits_append hd hrest.noDigit
    cases negative with
    | true =>
      simp only [exponentText, List.cons_append, if_true, readExponent, true_or, hread]
      cases ds with
      | nil => exact absurd rfl hne
      | cons d ds => rfl
    | false =>
      simp only [exponentText, List.cons_append, Bool.false_eq_true, if_false, readExponent,
        true_or, if_true, hread]
      cases ds with
      | nil => exact absurd rfl hne
      | cons d ds => rfl

theorem noDigit_exponentText (exponent : Option (Bool × List Char)) {rest : List Char}
    (hrest : Ends rest) : NoDigit (exponentText exponent ++ rest) := by
  cases exponent with
  | none => exact hrest.noDigit
  | some part =>
    intro c hc
    cases Option.some.inj (Option.mem_def.mp hc)
    rfl

theorem noDigit_fractionText (fraction : Option (List Char))
    (exponent : Option (Bool × List Char)) {rest : List Char} (hrest : Ends rest) :
    NoDigit (fractionText fraction ++ (exponentText exponent ++ rest)) := by
  cases fraction with
  | none => exact noDigit_exponentText exponent hrest
  | some ds =>
    intro c hc
    cases Option.some.inj (Option.mem_def.mp hc)
    rfl

theorem exponentText_ne_dot (exponent : Option (Bool × List Char)) {rest : List Char}
    (hrest : Ends rest) (cs : List Char) : exponentText exponent ++ rest ≠ '.' :: cs := by
  intro hc
  cases exponent with
  | none =>
    have hc' : rest = '.' :: cs := hc
    exact (hrest '.' (by rw [hc']; rfl)).2.1 rfl
  | some part =>
    have hhead : 'e' = '.' := (List.cons.inj hc).1
    exact absurd hhead (by decide)

theorem whole_ne_minus {whole : List Char} (hw : Digits whole) (hne : whole ≠ [])
    (rest cs : List Char) : whole ++ rest ≠ '-' :: cs := by
  intro hc
  cases whole with
  | nil => exact hne rfl
  | cons d ds =>
    have hd : d.isDigit = true := hw d List.mem_cons_self
    have hhead : d = '-' := (List.cons.inj hc).1
    rw [hhead] at hd
    exact absurd hd (by decide)

/-- The sign, the digits, the fraction and the exponent are read one after the other. -/
theorem readNumber_text (negative : Bool) (whole : List Char) (fraction : Option (List Char))
    (exponent : Option (Bool × List Char)) {rest : List Char} (hw : Digits whole)
    (hwhole : Whole whole) (hf : ∀ ds ∈ fraction, Digits ds ∧ ds ≠ [])
    (he : ∀ part ∈ exponent, Digits part.2 ∧ part.2 ≠ []) (hrest : Ends rest) :
    readNumber (signText negative ++ (whole ++ (fractionText fraction ++
      (exponentText exponent ++ rest)))) =
      some (numberOf negative whole fraction exponent, rest) := by
  have hexp := readExponent_text he hrest
  have hread := readDigits_append hw (noDigit_fractionText fraction exponent hrest)
  have hzero : ¬ (whole = [] ∨ (whole.head? = some '0' ∧ whole ≠ ['0'])) := by
    rintro (hnil | ⟨hhead, hne⟩)
    · exact hwhole.1 hnil
    · exact hne (hwhole.2 hhead)
  have hsign := whole_ne_minus hw hwhole.1
  cases fraction with
  | some ds =>
    obtain ⟨hd, hne⟩ := hf ds rfl
    have hdecimals := readDigits_append hd (noDigit_exponentText exponent hrest)
    cases ds with
    | nil => exact absurd rfl hne
    | cons d ds =>
      simp only [fractionText, List.cons_append] at hread hdecimals
      unfold readNumber numberOf
      cases negative with
      | true => simp [signText, fractionText, hread, hdecimals, hzero, hexp]
      | false =>
        simp only [signText, fractionText, Bool.false_eq_true, if_false, List.nil_append]
        split
        · rename_i cs hcs
          exact absurd hcs (hsign _ cs)
        · simp [hread, hdecimals, hzero, hexp]
  | none =>
    simp only [fractionText, List.nil_append] at hread
    -- By this the match on the text behind the digits comes to its last case.
    have hdot := exponentText_ne_dot exponent hrest
    unfold readNumber
    cases negative with
    | true =>
      simp only [signText, fractionText, if_true, List.cons_append, List.nil_append, hread,
        if_neg hzero]
      cases exponent <;> simp [hexp, numberOf, exponentValue]
    | false =>
      simp only [signText, fractionText, Bool.false_eq_true, if_false, List.nil_append]
      split
      · rename_i cs hcs
        exact absurd hcs (hsign _ cs)
      · simp only [hread, if_neg hzero]
        cases exponent <;> simp [hexp, numberOf, exponentValue]

theorem toList_toString_int (n : Int) :
    (toString n).toList = signText (n < 0) ++ Nat.toDigits 10 n.natAbs := by
  rw [Int.toString_eq_repr, Int.repr_eq_if]
  by_cases hn : n < 0
  · have habs : n.toNat = 0 := Int.toNat_of_nonpos (Int.le_of_lt hn)
    rw [if_neg (Int.not_le.mpr hn), String.toList_append, Nat.toList_repr]
    have : (-n).toNat = n.natAbs := by omega
    simp [signText, hn, this]
  · rw [if_pos (Int.not_lt.mp hn), Nat.toList_repr]
    have : n.toNat = n.natAbs := by omega
    simp [signText, hn, this]

theorem sign_mul_natAbs (n : Int) :
    (if decide (n < 0) = true then -1 else 1 : Int) * n.natAbs = n := by
  by_cases hn : n < 0
  · simp only [hn, decide_true, if_true]
    omega
  · simp only [hn, decide_false, Bool.false_eq_true, if_false]
    omega

theorem readNumber_int (n : Int) {rest : List Char} (hrest : Ends rest) :
    readNumber ((toString n).toList ++ rest) = some (.int n, rest) := by
  have hread := readNumber_text (n < 0) (Nat.toDigits 10 n.natAbs) none none
    (digits_toDigits n.natAbs) (whole_toDigits n.natAbs) (fun _ h => by cases h)
    (fun _ h => by cases h) hrest
  rw [toList_toString_int, List.append_assoc]
  refine hread.trans ?_
  simp only [numberOf, Option.isNone_none, and_self, if_true, digitsValue_toDigits]
  rw [sign_mul_natAbs]

/-! Floats. -/

/-- The decimal of a float has no zero at its end. -/
def Shortest (m e : Int) : Prop :=
  m = 0 ∧ e = 0 ∨ m % 10 ≠ 0

theorem shortReal_of_shortest {m : Int} (h : m % 10 ≠ 0) (fuel : Nat) (e : Int) :
    shortReal fuel m e = .real m e := by
  cases fuel with
  | zero => rfl
  | succ fuel =>
    have hm : m ≠ 0 := by
      rintro rfl
      exact h rfl
    rw [shortReal, if_neg hm, if_neg h]

theorem shortReal_zeros {m : Int} (h : m % 10 ≠ 0) {fuel k : Nat} (hk : k ≤ fuel) (e : Int) :
    shortReal fuel (m * 10 ^ k) e = .real m (e + k) := by
  induction k generalizing fuel e with
  | zero => rw [Int.pow_zero, Int.mul_one, shortReal_of_shortest h, Int.natCast_zero, Int.add_zero]
  | succ k ih =>
    cases fuel with
    | zero => omega
    | succ fuel =>
      have hm : m ≠ 0 := by
        rintro rfl
        exact h rfl
      have hten : m * 10 ^ (k + 1) = m * 10 ^ k * 10 := by rw [Int.pow_succ, Int.mul_assoc]
      have hne : m * 10 ^ k * 10 ≠ 0 :=
        Int.mul_ne_zero (Int.mul_ne_zero hm (Int.pow_ne_zero (by decide))) (by decide)
      rw [hten, shortReal, if_neg hne, if_pos (Int.mul_emod_left _ _),
        Int.mul_ediv_cancel _ (by decide), ih (Nat.le_of_succ_le_succ hk)]
      congr 1
      omega

/-- The digits of the two parts are those of the mantissa, cut at the point. -/
theorem numberOf_cut {m : Int} (hm : m % 10 ≠ 0) {whole decimals : List Char} (zeros : Nat)
    (hcut : whole ++ decimals = List.replicate zeros '0' ++ Nat.toDigits 10 m.natAbs)
    (exponent : Option (Bool × List Char)) :
    numberOf (m < 0) whole (some decimals) exponent =
      .real m ((exponentValue exponent).getD 0 - decimals.length) := by
  simp only [numberOf, Option.isNone_some, Bool.false_eq_true, false_and, if_false,
    Option.getD_some, hcut, digitsValue_zeros_append, digitsValue_toDigits]
  rw [sign_mul_natAbs, shortReal_of_shortest hm]

theorem numberOf_take {m : Int} (hm : m % 10 ≠ 0) (front : Nat)
    (exponent : Option (Bool × List Char)) :
    numberOf (m < 0) ((Nat.toDigits 10 m.natAbs).take front)
      (some ((Nat.toDigits 10 m.natAbs).drop front)) exponent =
      .real m ((exponentValue exponent).getD 0 - ((Nat.toDigits 10 m.natAbs).drop front).length) :=
  numberOf_cut hm 0 (List.take_append_drop front _) exponent

theorem digitsValue_padded (n : Nat) :
    digitsValue (if (Nat.toDigits 10 n).length < 2 then '0' :: Nat.toDigits 10 n
      else Nat.toDigits 10 n) = n := by
  split
  · exact (digitsValue_zeros_append 1 _).trans (digitsValue_toDigits n)
  · exact digitsValue_toDigits n

theorem digits_padded (n : Nat) :
    Digits (if (Nat.toDigits 10 n).length < 2 then '0' :: Nat.toDigits 10 n
      else Nat.toDigits 10 n) := by
  split
  · exact (digits_replicate_zero 1).append (digits_toDigits n)
  · exact digits_toDigits n

theorem natAbs_ne_zero {m : Int} (hm : m % 10 ≠ 0) : m.natAbs ≠ 0 := by
  omega

theorem whole_take {m : Int} (hm : m % 10 ≠ 0) {front : Nat} (hpos : 0 < front) :
    Whole ((Nat.toDigits 10 m.natAbs).take front) := by
  have hhead := head?_toDigits (natAbs_ne_zero hm)
  refine ⟨fun hnil => ?_, fun hzero => absurd ?_ hhead⟩
  · obtain hzero | hnil := List.take_eq_nil_iff.mp hnil
    · omega
    · exact Nat.toDigits_ne_nil hnil
  · rwa [List.head?_take, if_neg (Nat.pos_iff_ne_zero.mp hpos)] at hzero

/-- The shown exponent is the place of the point behind the first digit. -/
theorem exponentValue_shown (n : Int) :
    exponentValue (some (n < 0, if (Nat.toDigits 10 n.natAbs).length < 2
      then '0' :: Nat.toDigits 10 n.natAbs else Nat.toDigits 10 n.natAbs)) = some n := by
  simp only [exponentValue, digitsValue_padded]
  congr 1
  by_cases hn : n < 0
  · simp only [hn, decide_true, if_true]
    omega
  · simp only [hn, decide_false, Bool.false_eq_true, if_false]
    omega

theorem readNumber_scientific {m e : Int} (hm : m % 10 ≠ 0) {rest : List Char}
    (hrest : Ends rest) (point : Int)
    (hpoint : point = (Nat.toDigits 10 m.natAbs).length + e) :
    readNumber (signText (m < 0) ++ ((Nat.toDigits 10 m.natAbs).take 1 ++
      (if (Nat.toDigits 10 m.natAbs).length = 1 then []
        else '.' :: (Nat.toDigits 10 m.natAbs).drop 1) ++
      (if point - 1 < 0 then ['e', '-'] else ['e', '+']) ++
      (if (Nat.toDigits 10 (point - 1).natAbs).length < 2
        then '0' :: Nat.toDigits 10 (point - 1).natAbs
        else Nat.toDigits 10 (point - 1).natAbs) ++ rest)) = some (.real m e, rest) := by
  have hdigits := digits_toDigits m.natAbs
  have hlength : 0 < (Nat.toDigits 10 m.natAbs).length :=
    List.length_pos_iff.mpr Nat.toDigits_ne_nil
  have hvalue := exponentValue_shown (point - 1)
  have hshown := digits_padded (point - 1).natAbs
  have hne : (if (Nat.toDigits 10 (point - 1).natAbs).length < 2
      then '0' :: Nat.toDigits 10 (point - 1).natAbs
      else Nat.toDigits 10 (point - 1).natAbs) ≠ [] := by
    split
    · exact List.cons_ne_nil _ _
    · exact Nat.toDigits_ne_nil
  generalize (if (Nat.toDigits 10 (point - 1).natAbs).length < 2
    then '0' :: Nat.toDigits 10 (point - 1).natAbs
    else Nat.toDigits 10 (point - 1).natAbs) = shown at *
  have hexponent : ∀ part ∈ some ((point - 1 < 0 : Bool), shown),
      Digits part.2 ∧ part.2 ≠ [] := by
    intro part hpart
    cases hpart
    exact ⟨hshown, hne⟩
  have hmark : (if point - 1 < 0 then ['e', '-'] else ['e', '+']) ++ (shown ++ rest) =
      exponentText (some ((point - 1 < 0 : Bool), shown)) ++ rest := by
    by_cases hn : point - 1 < 0 <;> simp [exponentText, hn]
  simp only [List.append_assoc]
  rw [hmark]
  by_cases hone : (Nat.toDigits 10 m.natAbs).length = 1
  · rw [if_pos hone, List.take_of_length_le (Nat.le_of_eq hone), List.nil_append]
    refine (readNumber_text (m < 0) _ none _ hdigits (whole_toDigits _) (fun _ h => by cases h)
      hexponent hrest).trans ?_
    simp only [numberOf, Option.isNone_none, Option.isNone_some, Bool.false_eq_true, and_false,
      if_false, hvalue, Option.getD_none, List.append_nil, digitsValue_toDigits, Option.getD_some]
    rw [sign_mul_natAbs, shortReal_of_shortest hm]
    congr 3
    simp only [List.length_nil]
    omega
  · have hdecimals : ∀ ds ∈ some ((Nat.toDigits 10 m.natAbs).drop 1), Digits ds ∧ ds ≠ [] := by
      intro ds hds
      cases hds
      refine ⟨hdigits.drop 1, fun hnil => ?_⟩
      have := List.drop_eq_nil_iff.mp hnil
      omega
    rw [if_neg hone]
    refine (readNumber_text (m < 0) _ (some ((Nat.toDigits 10 m.natAbs).drop 1)) _
      (hdigits.take 1) (whole_take hm Nat.one_pos) hdecimals hexponent hrest).trans ?_
    rw [numberOf_take hm, hvalue]
    congr 3
    simp only [Option.getD_some, List.length_drop]
    omega

theorem readNumber_small {m e : Int} (hm : m % 10 ≠ 0) {rest : List Char} (hrest : Ends rest)
    {zeros : Nat} (hzeros : (Nat.toDigits 10 m.natAbs).length + e = -(zeros : Int)) :
    readNumber (signText (m < 0) ++ (['0', '.'] ++ List.replicate zeros '0' ++
      Nat.toDigits 10 m.natAbs ++ rest)) = some (.real m e, rest) := by
  have hread := readNumber_text (m < 0) ['0']
    (some (List.replicate zeros '0' ++ Nat.toDigits 10 m.natAbs)) none
    (digits_replicate_zero 1) ⟨by decide, by decide⟩
    (fun ds hds => by
      cases hds
      exact ⟨(digits_replicate_zero zeros).append (digits_toDigits m.natAbs), by
        simp [Nat.toDigits_ne_nil]⟩)
    (fun _ h => by cases h) hrest
  rw [numberOf_cut hm (zeros + 1) (by rfl)] at hread
  simp only [List.append_assoc, fractionText, exponentText, List.cons_append,
    List.nil_append] at hread ⊢
  rw [hread]
  congr 3
  simp only [exponentValue, Option.getD_none, List.length_append, List.length_replicate]
  omega

theorem readNumber_pointed {m e : Int} (hm : m % 10 ≠ 0) {rest : List Char} (hrest : Ends rest)
    {front : Nat} (hpos : 0 < front) (hlt : front < (Nat.toDigits 10 m.natAbs).length)
    (hfront : (Nat.toDigits 10 m.natAbs).length + e = front) :
    readNumber (signText (m < 0) ++ ((Nat.toDigits 10 m.natAbs).take front ++
      '.' :: (Nat.toDigits 10 m.natAbs).drop front ++ rest)) = some (.real m e, rest) := by
  have hdigits := digits_toDigits m.natAbs
  have hdecimals : ∀ ds ∈ some ((Nat.toDigits 10 m.natAbs).drop front),
      Digits ds ∧ ds ≠ [] := by
    intro ds hds
    cases hds
    refine ⟨hdigits.drop front, fun hnil => ?_⟩
    have := List.drop_eq_nil_iff.mp hnil
    omega
  have hread := readNumber_text (m < 0) _ _ none (hdigits.take front) (whole_take hm hpos)
    hdecimals (fun _ h => by cases h) hrest
  rw [numberOf_take hm] at hread
  simp only [List.append_assoc, fractionText, exponentText, List.cons_append,
    List.nil_append] at hread ⊢
  rw [hread]
  congr 3
  simp only [exponentValue, Option.getD_none, List.length_drop]
  omega

theorem readNumber_trailing {m e : Int} (hm : m % 10 ≠ 0) {rest : List Char} (hrest : Ends rest)
    {zeros : Nat} (hzeros : e = zeros) :
    readNumber (signText (m < 0) ++ (Nat.toDigits 10 m.natAbs ++ List.replicate zeros '0' ++
      ['.', '0'] ++ rest)) = some (.real m e, rest) := by
  have hhead := head?_toDigits (natAbs_ne_zero hm)
  have hwhole : Whole (Nat.toDigits 10 m.natAbs ++ List.replicate zeros '0') := by
    refine ⟨by simp [Nat.toDigits_ne_nil], fun hzero => absurd ?_ hhead⟩
    rwa [List.head?_append_of_ne_nil _ Nat.toDigits_ne_nil] at hzero
  have hread := readNumber_text (m < 0) _ (some ['0']) none
    ((digits_toDigits m.natAbs).append (digits_replicate_zero zeros)) hwhole
    (fun ds hds => by
      cases hds
      exact ⟨digits_replicate_zero 1, by decide⟩)
    (fun _ h => by cases h) hrest
  have hdigits : Nat.toDigits 10 m.natAbs ++ List.replicate zeros '0' ++ ['0'] =
      Nat.toDigits 10 m.natAbs ++ List.replicate (zeros + 1) '0' := by
    rw [List.append_assoc, List.replicate_succ']
  have hmantissa : (if decide (m < 0) = true then -1 else 1 : Int) *
      (digitsValue (Nat.toDigits 10 m.natAbs ++ List.replicate (zeros + 1) '0') : Int) =
      m * 10 ^ (zeros + 1) := by
    rw [digitsValue_append_zeros, digitsValue_toDigits, Int.natCast_mul, ← Int.mul_assoc,
      sign_mul_natAbs, Int.natCast_pow]
    rfl
  have hlength : zeros + 1 ≤
      (Nat.toDigits 10 m.natAbs ++ List.replicate (zeros + 1) '0').length := by
    rw [List.length_append, List.length_replicate]
    exact Nat.le_add_left _ _
  have hnumber : numberOf (m < 0) (Nat.toDigits 10 m.natAbs ++ List.replicate zeros '0')
      (some ['0']) none = .real m e := by
    simp only [numberOf, Option.isNone_some, Bool.false_eq_true, false_and, if_false,
      Option.getD_some, hdigits, hmantissa]
    rw [shortReal_zeros hm hlength]
    congr 1
    simp only [exponentValue, Option.getD_none, List.length_singleton]
    omega
  rw [hnumber] at hread
  simpa only [List.append_assoc, fractionText, exponentText, List.cons_append,
    List.nil_append] using hread

theorem readNumber_real {m e : Int} (h : Shortest m e) {rest : List Char} (hrest : Ends rest) :
    readNumber (renderReal m e ++ rest) = some (.real m e, rest) := by
  obtain ⟨rfl, rfl⟩ | hm := h
  · exact readNumber_text false ['0'] (some ['0']) none
      (digits_replicate_zero 1) ⟨by decide, by decide⟩
      (fun ds hds => by
        cases hds
        exact ⟨digits_replicate_zero 1, by decide⟩)
      (fun _ h => by cases h) hrest
  have hne : m ≠ 0 := by
    rintro rfl
    exact hm rfl
  have hsign : (if m < 0 then ['-'] else []) = signText (m < 0) := by simp [signText]
  have hlength : 0 < (Nat.toDigits 10 m.natAbs).length :=
    List.length_pos_iff.mpr Nat.toDigits_ne_nil
  unfold renderReal
  dsimp only
  rw [toList_toString, toList_toString, if_neg hne, hsign, List.append_assoc]
  split
  · exact readNumber_scientific hm hrest _ rfl
  · split
    · exact readNumber_small hm hrest (by omega)
    · split
      · exact readNumber_pointed hm hrest (by omega) (by omega) (by omega)
      · exact readNumber_trailing hm hrest (by omega)

end Yuki.Json

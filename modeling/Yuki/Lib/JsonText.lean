import Yuki.Lib.Json

/-! JSON text: rendering without blanks, and reading a document back. A decimal
literal is read exactly; `NaN` and the infinities are not JSON and are refused. -/

namespace Yuki.Json

/-! Rendering. -/

def hexDigit (n : Nat) : Char :=
  if n < 10 then Char.ofNat (48 + n) else Char.ofNat (87 + n)

def escapeChar (c : Char) : List Char :=
  if c = '"' then ['\\', '"'] else if c = '\\' then ['\\', '\\']
  else if c = '\n' then ['\\', 'n'] else if c = '\r' then ['\\', 'r']
  else if c = '\t' then ['\\', 't']
  else if c.toNat = 8 then ['\\', 'b'] else if c.toNat = 12 then ['\\', 'f']
  else if c.toNat < 32 then ['\\', 'u', '0', '0', hexDigit (c.toNat / 16), hexDigit (c.toNat % 16)]
  else [c]

def quote (s : String) : List Char :=
  '"' :: s.toList.flatMap escapeChar ++ ['"']

/-- The shortest decimal of a float: positional for moderate exponents, scientific otherwise. -/
def renderReal (m e : Int) : List Char :=
  let digits := (toString m.natAbs).toList
  let point : Int := digits.length + e
  (if m < 0 then ['-'] else []) ++
    if m = 0 then ['0', '.', '0']
    else if 16 < point ∨ point ≤ -4 then
      let shown := (toString (point - 1).natAbs).toList
      digits.take 1 ++ (if digits.length = 1 then [] else '.' :: digits.drop 1) ++
        (if point - 1 < 0 then ['e', '-'] else ['e', '+']) ++
        (if shown.length < 2 then '0' :: shown else shown)
    else if point ≤ 0 then ['0', '.'] ++ List.replicate point.natAbs '0' ++ digits
    else if e < 0 then digits.take point.toNat ++ '.' :: digits.drop point.toNat
    else digits ++ List.replicate e.toNat '0' ++ ['.', '0']

mutual

/-- The text of a value with its members in stored order; `comma` and `colon` are the separators. -/
def chars (comma colon : List Char) : Json → List Char
  | .null => ['n', 'u', 'l', 'l']
  | .bool true => ['t', 'r', 'u', 'e']
  | .bool false => ['f', 'a', 'l', 's', 'e']
  | .int n => (toString n).toList
  | .real m e => renderReal m e
  | .str s => quote s
  | .arr xs => '[' :: charsItems comma colon xs ++ [']']
  | .obj fs => '{' :: charsFields comma colon fs ++ ['}']

def charsItems (comma colon : List Char) : List Json → List Char
  | [] => []
  | [x] => chars comma colon x
  | x :: xs => chars comma colon x ++ comma ++ charsItems comma colon xs

def charsFields (comma colon : List Char) : List (String × Json) → List Char
  | [] => []
  | [(k, v)] => quote k ++ colon ++ chars comma colon v
  | (k, v) :: fs => quote k ++ colon ++ chars comma colon v ++ comma ++ charsFields comma colon fs

end

/-- The text of a value without blanks. -/
def minify (j : Json) : String :=
  String.ofList (j.chars [','] [':'])

/-- `json.dumps(v, ensure_ascii=False)`. -/
def dumps (j : Json) : String :=
  String.ofList (j.chars [',', ' '] [':', ' '])

theorem charsFields_ne_nil (comma colon : List Char) (f : String × Json) (fs : List (String × Json)) :
    charsFields comma colon (f :: fs) ≠ [] := by
  obtain ⟨k, v⟩ := f
  cases fs <;> simp [charsFields, quote]

theorem minify_obj_eq_braces (fs : List (String × Json)) : (Json.obj fs).minify = "{}" ↔ fs = [] := by
  constructor
  · intro h
    cases fs with
    | nil => rfl
    | cons f fs =>
      have hl : (Json.obj (f :: fs)).chars [','] [':'] = ['{', '}'] := by
        have hh := congrArg String.toList h
        rwa [minify, String.toList_ofList] at hh
      simp [chars, charsFields_ne_nil] at hl
  · rintro rfl
    rfl

/-! Reading. -/

abbrev Reader (α : Type) := List Char → Option (α × List Char)

def skipBlank : List Char → List Char
  | c :: cs => if c = ' ' ∨ c = '\n' ∨ c = '\r' ∨ c = '\t' then skipBlank cs else c :: cs
  | [] => []

def hexValue (c : Char) : Option Nat :=
  if c.isDigit then some (c.toNat - 48)
  else if 'a' ≤ c ∧ c ≤ 'f' then some (c.toNat - 87)
  else if 'A' ≤ c ∧ c ≤ 'F' then some (c.toNat - 55)
  else none

def readHex4 : Reader Nat
  | a :: b :: c :: d :: cs => do
    let a ← hexValue a
    let b ← hexValue b
    let c ← hexValue c
    let d ← hexValue d
    some (((a * 16 + b) * 16 + c) * 16 + d, cs)
  | _ => none

/-- The rest of a string literal, from after its opening quote. -/
def readChars : Nat → List Char → Reader String
  | 0, _, _ => none
  | _, _, [] => none
  | fuel + 1, acc, '\\' :: c :: cs =>
    match c with
    | '"' => readChars fuel ('"' :: acc) cs
    | '\\' => readChars fuel ('\\' :: acc) cs
    | '/' => readChars fuel ('/' :: acc) cs
    | 'n' => readChars fuel ('\n' :: acc) cs
    | 'r' => readChars fuel ('\r' :: acc) cs
    | 't' => readChars fuel ('\t' :: acc) cs
    | 'b' => readChars fuel (Char.ofNat 8 :: acc) cs
    | 'f' => readChars fuel (Char.ofNat 12 :: acc) cs
    | 'u' => do
      let (high, cs) ← readHex4 cs
      if 0xD800 ≤ high ∧ high < 0xDC00 then
        match cs with
        | '\\' :: 'u' :: ds =>
          let (low, ds) ← readHex4 ds
          if 0xDC00 ≤ low ∧ low < 0xE000 then
            readChars fuel (Char.ofNat (0x10000 + (high - 0xD800) * 0x400 + (low - 0xDC00)) :: acc) ds
          else none
        | _ => none
      else readChars fuel (Char.ofNat high :: acc) cs
    | _ => none
  | fuel + 1, acc, c :: cs =>
    if c = '"' then some (String.ofList acc.reverse, cs)
    else if c.toNat < 32 then none
    else readChars fuel (c :: acc) cs

def readDigits : List Char → List Char × List Char
  | c :: cs => if c.isDigit then let r := readDigits cs; (c :: r.1, r.2) else ([], c :: cs)
  | [] => ([], [])

def digitsValue (ds : List Char) : Nat :=
  ds.foldl (fun n c => n * 10 + (c.toNat - 48)) 0

/-- Trailing zeros move into the exponent. -/
def shortReal : Nat → Int → Int → Json
  | 0, m, e => .real m e
  | fuel + 1, m, e =>
    if m = 0 then .real 0 0 else if m % 10 = 0 then shortReal fuel (m / 10) (e + 1) else .real m e

def readExponent : List Char → Option (Option Int × List Char)
  | c :: cs =>
    if c = 'e' ∨ c = 'E' then
      let (negative, cs) := match cs with
        | '-' :: cs => (true, cs)
        | '+' :: cs => (false, cs)
        | cs => (false, cs)
      match readDigits cs with
      | ([], _) => none
      | (ds, cs) => some (some (if negative then -(digitsValue ds : Int) else digitsValue ds), cs)
    else some (none, c :: cs)
  | [] => some (none, [])

def readNumber (cs : List Char) : Option (Json × List Char) := do
  let (negative, cs) := match cs with
    | '-' :: cs => (true, cs)
    | cs => (false, cs)
  let (whole, cs) := readDigits cs
  if whole = [] ∨ (whole.head? = some '0' ∧ whole ≠ ['0']) then none
  let (fraction, cs) ← match cs with
    | '.' :: ds =>
      match readDigits ds with
      | ([], _) => none
      | (ds, cs) => some (some ds, cs)
    | cs => some (none, cs)
  let (exponent, cs) ← readExponent cs
  let sign : Int := if negative then -1 else 1
  if fraction.isNone ∧ exponent.isNone then some (.int (sign * digitsValue whole), cs)
  else
    let decimals := fraction.getD []
    let mantissa := digitsValue (whole ++ decimals)
    some (shortReal (whole ++ decimals).length (sign * mantissa) (exponent.getD 0 - decimals.length), cs)

mutual

def readValue : Nat → Reader Json
  | 0, _ => none
  | fuel + 1, cs =>
    match skipBlank cs with
    | 'n' :: 'u' :: 'l' :: 'l' :: cs => some (.null, cs)
    | 't' :: 'r' :: 'u' :: 'e' :: cs => some (.bool true, cs)
    | 'f' :: 'a' :: 'l' :: 's' :: 'e' :: cs => some (.bool false, cs)
    | '"' :: cs => (readChars (cs.length + 1) [] cs).map fun r => (.str r.1, r.2)
    | '[' :: cs =>
      match skipBlank cs with
      | ']' :: cs => some (.arr [], cs)
      | cs => (readItems fuel cs).map fun r => (.arr r.1, r.2)
    | '{' :: cs =>
      match skipBlank cs with
      | '}' :: cs => some (.obj [], cs)
      | cs => (readFields fuel cs).map fun r => (.obj r.1, r.2)
    | cs => readNumber cs

def readItems : Nat → Reader (List Json)
  | 0, _ => none
  | fuel + 1, cs => do
    let (x, cs) ← readValue fuel cs
    match skipBlank cs with
    | ',' :: cs =>
      let (xs, cs) ← readItems fuel cs
      some (x :: xs, cs)
    | ']' :: cs => some ([x], cs)
    | _ => none

/-- Members in text order; of two members with one key the later one counts. -/
def readFields : Nat → Reader (List (String × Json))
  | 0, _ => none
  | fuel + 1, cs =>
    match skipBlank cs with
    | '"' :: cs => do
      let (k, cs) ← readChars (cs.length + 1) [] cs
      match skipBlank cs with
      | ':' :: cs =>
        let (v, cs) ← readValue fuel cs
        match skipBlank cs with
        | ',' :: cs =>
          let (fs, cs) ← readFields fuel cs
          some (if (fs.lookup k).isSome then fs else (k, v) :: fs, cs)
        | '}' :: cs => some ([(k, v)], cs)
        | _ => none
      | _ => none
    | _ => none

end

-- The equations of the readers are made here, once, for all the lemmas about them.
example (cs : List Char) : readValue 0 cs = none := by
  rw [readValue]

example (acc cs : List Char) : readChars 0 acc cs = none := by
  rw [readChars]

/-- `json.loads`, with `none` for text that is no document. -/
def loads (s : String) : Option Json :=
  match readValue (s.length + 1) s.toList with
  | some (v, rest) => if skipBlank rest = [] then some v else none
  | none => none

example : loads "\x7b\"ok\": true, \"data\": [1, -2.50]\x7d" =
    some (.obj [("ok", .bool true), ("data", .arr [.int 1, .real (-25) (-1)])]) := by decide +kernel

end Yuki.Json

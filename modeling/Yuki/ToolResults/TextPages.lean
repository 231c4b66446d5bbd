import Yuki.Lib.LongestFit
import Yuki.Lib.Paging
import Yuki.Lib.Utf8
import Yuki.ToolResults.Envelope

/-! Pages of a text artifact: the text is decoded as the file is read in chunks,
and a page is the longest piece whose envelope fits the budget. -/

namespace Yuki.ToolResults

def digits (n : Nat) : Nat :=
  (toString n).toList.length

def isTextMode (base : Json) : Bool :=
  base.get "mode" = .str "text"

/-- The inner `page` of `_string_page`. -/
def pageOf (fragment : List Char) (total offset : Nat) (base : Json) (queryMatched : Option Bool)
    (length : Nat) : Json :=
  let stop := offset + length
  let page := base.merge (.obj
    [("offset", .int offset), ("next_offset", optionalInt (if stop < total then some stop else none)),
      ("total_characters", .int total),
      (if isTextMode base then "content" else "value", .str (String.ofList (fragment.take length)))])
  if isTextMode base then page.set "query_matched" (optionalBool queryMatched)
  else page.merge (.obj [("offset_unit", .str "characters"), ("truncated", .bool (stop < total))])

def metadataWidth (textMode : Bool) (total stop : Nat) : Nat :=
  (if stop < total then digits stop else 4) +
    if textMode then 0 else if stop < total then 4 else 5

/-- No later cursor is narrower; only the end of the text can show none. -/
def metadataFloor (textMode terminal : Bool) (stop : Nat) : Nat :=
  let integer := digits stop + if textMode then 0 else 4
  if terminal then min integer (4 + if textMode then 0 else 5) else integer

/-- The loop of `_string_page`: the longest length seen so far that fits. -/
def fitLoop (fixed : Int) (total offset : Nat) (textMode terminal : Bool) (budget : Nat) :
    List Char → Nat → Int → Nat → Nat
  | [], _, _, best => best
  | c :: cs, length, used, best =>
    let length := length + 1
    let used := used + escapedCharacterLength c
    let stop := offset + length
    let best := if fixed + used + metadataWidth textMode total stop ≤ budget then length else best
    if fixed + used + metadataFloor textMode terminal stop > budget then best
    else fitLoop fixed total offset textMode terminal budget cs length used best

/-- `_string_page`; nothing where the interpreter has no calls left to count a page. -/
def stringPage (stack : Nat) (fragment : List Char) (total offset : Nat) (base : Json)
    (maxCharacters : Nat) (queryMatched : Option Bool) : Option Json := do
  let textMode := isTextMode base
  let page := pageOf fragment total offset base queryMatched
  let reference := (page 0).set "next_offset" .null
  let reference := if textMode then reference else reference.set "truncated" (.bool false)
  let size ← artifactPageSize stack reference none
  let fixed := size - 4 - if textMode then 0 else 5
  let terminal := offset + fragment.length = total
  let best := fitLoop fixed total offset textMode terminal maxCharacters fragment 0 0 0
  let result := page best
  if !artifactPageFits stack result maxCharacters || (best = 0 && offset < total) then
    return artifactError "artifact_budget_too_small" "预算不足以返回一个字符"
      ((if textMode then [("handle", base.get "handle")]
        else base.fields.filter fun f => f.1 ≠ "type") ++
        [("offset", .int offset), ("next_offset", .int offset)])
  else return result

/-! The streaming reader. -/

structure ReadState where
  buffer : List Nat := []
  totalBytes : Nat := 0
  totalCharacters : Nat := 0
  hashed : List Nat := []
  pieces : List (List Char) := []
  invalidUtf8 : Bool := false

/-- The inner `collect` of `_read_text_file`; `width` is the least of the limit and the budget. -/
def ReadState.collect (s : ReadState) (offset width : Nat) (text : List Char) : ReadState :=
  let start := offset - s.totalCharacters
  let stop := min text.length (offset + width - s.totalCharacters)
  { s with
    pieces := if start < stop then s.pieces ++ [(text.take stop).drop start] else s.pieces
    totalCharacters := s.totalCharacters + text.length }

def ReadState.decode (s : ReadState) (offset width : Nat) (final : Bool) (chunk : List Nat) :
    ReadState :=
  if s.invalidUtf8 then s
  else match Utf8.decode final 0 (s.buffer ++ chunk) with
    | some (text, rest) => { s.collect offset width text with buffer := rest }
    | none => { s with invalidUtf8 := true }

/-- The loop over the file; each chunk is what one read returned. -/
def readChunks (byteSize offset width : Nat) : List (List Nat) → ReadState → ReadState
  | [], s => s
  | chunk :: chunks, s =>
    if s.totalBytes ≤ byteSize ∧ chunk ≠ [] then
      readChunks byteSize offset width chunks
        ({ s with
          totalBytes := s.totalBytes + chunk.length
          hashed := s.hashed ++ chunk }.decode offset width false chunk)
    else s

def textBase (handleId : String) : Json :=
  .obj [("handle", .str handleId), ("mode", .str "text")]

/-- `_read_text_file`; `sha256` is the digest of the standard library, and no chunks stand for
a file that cannot be read. -/
def readTextFile (sha256 : List Nat → String) (stack : Nat) (chunks : Option (List (List Nat)))
    (byteSize : Nat) (digest : Option String) (handleId : String)
    (offset limit maxCharacters : Nat) : Option (Bool × Json) :=
  match chunks with
  | none => some (false, artifactError "artifact_missing" "Artifact 正文缺失，执行回执仍然有效" [])
  | some chunks =>
    let width := min limit maxCharacters
    let s := (readChunks byteSize offset width chunks {}).decode offset width true []
    if s.totalBytes ≠ byteSize ∨ digest.any (fun d => d ≠ "" && sha256 s.hashed ≠ d) then
      some (false, artifactError "artifact_corrupt" "Artifact 完整性校验失败" [])
    else if s.invalidUtf8 then
      some (false, artifactError "artifact_corrupt" "Artifact 不是有效 UTF-8" [])
    else
      (stringPage stack s.pieces.flatten s.totalCharacters offset (textBase handleId)
        maxCharacters none).map fun page => (true, page)

/-! The reader of a decoded text. -/

/-- `text.find(part)`. -/
def findText (text part : List Char) : Option Nat :=
  (List.range (text.length + 1)).find? fun i => part.isPrefixOf (text.drop i)

/-- The character of the original text at which a place of its folded text lies. -/
def unfoldedStart (casefold : Char → List Char) (found : Nat) (default : Nat) :
    List Char → Nat → Nat → Nat
  | [], _, _ => default
  | c :: cs, index, folded =>
    let folded := folded + (casefold c).length
    if folded > found then index else unfoldedStart casefold found default cs (index + 1) folded

/-- `_read_text_artifact`; `casefold` is the folding of the standard library. -/
def readTextArtifact (casefold : Char → List Char) (stack : Nat) (handleId : String)
    (content : List Char) (offset limit : Nat) (query : List Char) (maxCharacters : Nat) :
    Option Json :=
  let width := min limit maxCharacters
  if query = [] then
    stringPage stack ((content.drop offset).take width) content.length offset (textBase handleId)
      maxCharacters none
  else
    let suffix := content.drop offset
    match findText (suffix.flatMap casefold) (query.flatMap casefold) with
    | none => some (.obj [("handle", .str handleId), ("mode", .str "text"), ("offset", .int offset),
        ("next_offset", .null), ("total_characters", .int content.length), ("content", .str ""),
        ("query_matched", .bool false)])
    | some found =>
      let start := unfoldedStart casefold found offset suffix offset 0
      stringPage stack ((content.drop start).take width) content.length start (textBase handleId)
        maxCharacters (some true)

/-! The size of a page. -/

theorem digits_pos (n : Nat) : 0 < digits n := by
  simp [digits, Nat.length_toDigits_pos]

theorem digits_mono {n m : Nat} (h : n ≤ m) : digits n ≤ digits m := by
  have hm : (Nat.toDigits 10 m).length ≤ digits m := by simp [digits]
  have hlt := (Nat.length_toDigits_le_iff (by decide) (digits_pos m)).1 hm
  have hn := (Nat.length_toDigits_le_iff (b := 10) (by decide) (digits_pos m)).2
    (Nat.lt_of_le_of_lt h hlt)
  simpa [digits] using hn

def escapedLength (text : List Char) : Nat :=
  (text.map escapedCharacterLength).sum

/-- A page of a text, with its fields in order. -/
def textPage (handleId : String) (total offset : Nat) (next : Option Nat) (content : List Char)
    (queryMatched : Option Bool) : Json :=
  .obj [("handle", .str handleId), ("mode", .str "text"), ("offset", .int offset),
    ("next_offset", optionalInt next), ("total_characters", .int total),
    ("content", .str (String.ofList content)), ("query_matched", optionalBool queryMatched)]

theorem isTextMode_textBase (handleId : String) : isTextMode (textBase handleId) = true := rfl

theorem pageOf_textBase (fragment : List Char) (total offset : Nat) (handleId : String)
    (queryMatched : Option Bool) (length : Nat) :
    pageOf fragment total offset (textBase handleId) queryMatched length =
      textPage handleId total offset
        (if offset + length < total then some (offset + length) else none)
        (fragment.take length) queryMatched := rfl

theorem isPage_textPage (handleId : String) (total offset : Nat) (next : Option Nat)
    (content : List Char) (queryMatched : Option Bool) :
    IsPage (textPage handleId total offset next content queryMatched) :=
  ⟨rfl, fun s => by simp [textPage, Json.get, Json.getD, Json.get?, Json.fields, List.lookup_cons],
    rfl⟩

theorem height_textPage (handleId : String) (total offset : Nat) (next : Option Nat)
    (content : List Char) (queryMatched : Option Bool) :
    (Node.ofJson (textPage handleId total offset next content queryMatched)).height = 2 := by
  cases next <;> cases queryMatched <;> rfl

theorem length_quote (text : List Char) :
    (Json.quote (String.ofList text)).length = 2 + escapedLength text := by
  simp only [Json.quote, String.toList_ofList, List.length_append, List.length_cons,
    List.length_nil, length_flatMap_escapeChar, escapedLength]
  omega

theorem textLength_optionalInt (comma colon : List Char) (n : Option Nat) :
    textLength comma colon (optionalInt n) = n.elim 4 fun n => (digits n : Int) := by
  cases n <;> rfl

/-- The size of a page grows with its text and its cursor only. -/
theorem dumpsLength_textPage (handleId : String) (total offset : Nat) (next : Option Nat)
    (content : List Char) (queryMatched : Option Bool) :
    dumpsLength (textPage handleId total offset next content queryMatched) =
      dumpsLength (textPage handleId total offset none [] queryMatched) - 4 +
        escapedLength content + next.elim 4 fun n => (digits n : Int) := by
  have hstr : ∀ text, textLength [',', ' '] [':', ' '] (.str (String.ofList text)) =
      2 + escapedLength text := by
    intro text
    have := length_quote text
    simp only [textLength, Json.chars]
    omega
  have hempty : escapedLength [] = 0 := rfl
  have hnone : textLength [',', ' '] [':', ' '] (optionalInt none) = 4 := rfl
  simp only [dumpsLength, textPage, textLength_obj, fieldsLength, hstr, hempty,
    textLength_optionalInt, Option.elim]
  omega

theorem escapedLength_append (a b : List Char) :
    escapedLength (a ++ b) = escapedLength a + escapedLength b := by
  simp [escapedLength]

theorem escapedLength_take_mono (text : List Char) {l l' : Nat} (h : l ≤ l') :
    escapedLength (text.take l) ≤ escapedLength (text.take l') := by
  have hsplit : text.take l' = text.take l ++ (text.drop l).take (l' - l) := by
    rw [← List.take_add, Nat.add_sub_cancel' h]
  rw [hsplit, escapedLength_append]
  omega

/-- A longer piece needs at least the room that the loop has seen to be missing. -/
theorem metadataFloor_le (textMode : Bool) {terminal : Bool} {total stop stop' : Nat} (h : stop < stop')
    (hterminal : terminal = false → stop' < total) :
    metadataFloor textMode terminal stop ≤ metadataWidth textMode total stop' := by
  have hd := digits_mono (Nat.le_of_lt h)
  unfold metadataFloor metadataWidth
  cases terminal with
  | true => cases textMode <;> simp only [if_true, Bool.false_eq_true, if_false] <;> split <;> omega
  | false =>
    have hlt := hterminal rfl
    cases textMode <;> simp only [if_true, Bool.false_eq_true, if_false, if_pos hlt] <;> omega

section Loop

variable (fixed : Int) (total offset : Nat) (textMode terminal : Bool) (budget : Nat)
  (fragment : List Char)

def pieceFits (length : Nat) : Bool :=
  fixed + escapedLength (fragment.take length) + metadataWidth textMode total (offset + length) ≤
    (budget : Int)

def pieceStops (length : Nat) : Bool :=
  fixed + escapedLength (fragment.take length) + metadataFloor textMode terminal (offset + length) >
    (budget : Int)

/-- The loop is the search for the longest piece that fits. -/
theorem fitLoop_eq {pre cs : List Char} (h : pre ++ cs = fragment) (best : Nat) :
    fitLoop fixed total offset textMode terminal budget cs pre.length (escapedLength pre) best =
      longestFit (pieceFits fixed total offset textMode budget fragment)
        (pieceStops fixed offset textMode terminal budget fragment) cs.length pre.length best := by
  induction cs generalizing pre best with
  | nil => rfl
  | cons c cs ih =>
    have htake : fragment.take (pre.length + 1) = pre ++ [c] := by
      rw [← h, List.take_append]
      simp
    have hlen : escapedLength (pre ++ [c]) = escapedLength pre + escapedCharacterLength c := by
      simp [escapedLength]
    have hpre : (pre ++ [c]) ++ cs = fragment := by simpa using h
    have hih := fun best => ih hpre best
    simp only [List.length_append, List.length_cons, List.length_nil, Nat.zero_add, hlen,
      Int.natCast_add] at hih
    simp only [fitLoop, List.length_cons, longestFit, pieceFits, pieceStops, htake, hlen, hih,
      decide_eq_true_eq, Int.natCast_add]

theorem fitLoop_spec (hend : fragment = [] ∨ offset + fragment.length ≤ total)
    (hterminal : terminal = decide (offset + fragment.length = total)) :
    LongestFit (pieceFits fixed total offset textMode budget fragment) fragment.length
      (fitLoop fixed total offset textMode terminal budget fragment 0 0 0) := by
  have hstop : ∀ l l', pieceStops fixed offset textMode terminal budget fragment l = true → l < l' →
      l' ≤ 0 + fragment.length → pieceFits fixed total offset textMode budget fragment l' = false := by
    intro l l' hs hlt hle
    rw [Nat.zero_add] at hle
    have hmono := escapedLength_take_mono fragment (Nat.le_of_lt hlt)
    have hlater : terminal = false → offset + l' < total := by
      intro ht
      rw [hterminal, decide_eq_false_iff_not] at ht
      obtain rfl | hend := hend
      · simp at hle
        omega
      · omega
    have hfloor := metadataFloor_le textMode (Nat.add_lt_add_left hlt offset) hlater
    simp only [pieceStops, pieceFits, decide_eq_true_eq, decide_eq_false_iff_not] at hs ⊢
    omega
  have hloop := longestFit_spec hstop (LongestFit.zero _)
  have heq : fitLoop fixed total offset textMode terminal budget fragment 0 0 0 = _ :=
    fitLoop_eq fixed total offset textMode terminal budget fragment (List.nil_append fragment) 0
  rw [heq]
  rw [Nat.zero_add] at hloop
  exact hloop

end Loop

/-- The length of the envelope of the page that shows a piece. -/
def pageSize (handleId : String) (fragment : List Char) (total offset : Nat)
    (queryMatched : Option Bool) (length : Nat) : Int :=
  dumpsLength (artifactEnvelope
    (pageOf fragment total offset (textBase handleId) queryMatched length))

def budgetTooSmall (handleId : String) (offset : Nat) : Json :=
  artifactError "artifact_budget_too_small" "预算不足以返回一个字符"
    [("handle", .str handleId), ("offset", .int offset), ("next_offset", .int offset)]

/-- A page of a text is the longest piece whose envelope fits, unless not one character does. -/
theorem stringPage_text {stack : Nat} (hstack : 2 < stack) {fragment : List Char}
    {total offset : Nat} (hend : fragment = [] ∨ offset + fragment.length ≤ total)
    (handleId : String) (budget : Nat) (queryMatched : Option Bool) :
    ∃ best, LongestFit (fun l => pageSize handleId fragment total offset queryMatched l ≤
        (budget : Int)) fragment.length best ∧
      stringPage stack fragment total offset (textBase handleId) budget queryMatched =
        some (if pageSize handleId fragment total offset queryMatched best ≤ budget ∧
          (best = 0 → total ≤ offset) then
            pageOf fragment total offset (textBase handleId) queryMatched best
          else budgetTooSmall handleId offset) := by
  have hreference : (pageOf fragment total offset (textBase handleId) queryMatched 0).set
      "next_offset" .null = textPage handleId total offset none [] queryMatched := rfl
  have hheight : ∀ next content,
      (Node.ofJson (textPage handleId total offset next content queryMatched)).height < stack := by
    intro next content
    rw [height_textPage]
    exact hstack
  have hfixed : artifactPageSize stack (textPage handleId total offset none [] queryMatched) none =
      some (dumpsLength (artifactEnvelope
        (textPage handleId total offset none [] queryMatched))) :=
    artifactPageSize_page (isPage_textPage ..) (hheight _ _) none
  generalize hfix : dumpsLength (artifactEnvelope
    (textPage handleId total offset none [] queryMatched)) - 4 - 0 = fixed at *
  have hsize : ∀ l, pageSize handleId fragment total offset queryMatched l =
      fixed + escapedLength (fragment.take l) + metadataWidth true total (offset + l) := by
    intro l
    have hpage := dumpsLength_textPage handleId total offset
      (if offset + l < total then some (offset + l) else none) (fragment.take l) queryMatched
    have hempty := dumpsLength_envelope (isPage_textPage handleId total offset none [] queryMatched)
    rw [pageSize, pageOf_textBase, dumpsLength_envelope (isPage_textPage ..), hpage]
    unfold metadataWidth
    split <;> simp only [Option.elim, if_true] <;> omega
  have hfits : (fun l => decide (pageSize handleId fragment total offset queryMatched l ≤
      (budget : Int))) = pieceFits fixed total offset true budget fragment := by
    funext l
    rw [pieceFits, hsize]
  refine ⟨fitLoop fixed total offset true (decide (offset + fragment.length = total)) budget
    fragment 0 0 0, ?_, ?_⟩
  · rw [hfits]
    exact fitLoop_spec fixed total offset true _ budget fragment hend rfl
  · generalize hbest : fitLoop fixed total offset true (decide (offset + fragment.length = total))
      budget fragment 0 0 0 = best
    have hfit : artifactPageFits stack
        (pageOf fragment total offset (textBase handleId) queryMatched best) budget = true ↔
        pageSize handleId fragment total offset queryMatched best ≤ budget := by
      rw [pageSize, pageOf_textBase]
      exact artifactPageFits_page (isPage_textPage ..) (hheight _ _) budget
    unfold stringPage
    dsimp only
    rw [isTextMode_textBase, if_pos rfl, hreference, hfixed]
    simp only [Option.bind_eq_bind, Option.bind_some, if_true, hfix, hbest]
    cases hf : artifactPageFits stack
        (pageOf fragment total offset (textBase handleId) queryMatched best) budget with
    | false =>
      have hno : ¬ pageSize handleId fragment total offset queryMatched best ≤ budget := by
        rw [← hfit, hf]
        simp
      simp only [Bool.not_false, Bool.true_or, if_true]
      rw [if_neg fun h => hno h.1]
      rfl
    | true =>
      simp only [Bool.not_true, Bool.false_or, Bool.and_eq_true, decide_eq_true_eq]
      by_cases hb : best = 0 ∧ offset < total
      · rw [if_pos hb, if_neg fun h => absurd (h.2 hb.1) (Nat.not_le.2 hb.2)]
        rfl
      · rw [if_neg hb, if_pos ⟨hfit.1 hf, fun h0 => Nat.not_lt.1 fun hlt => hb ⟨h0, hlt⟩⟩]
        rfl

/-! The streaming reader sees the text it would see whole. -/

theorem slice_append (a b : List Char) (offset width : Nat) :
    ((a ++ b).drop offset).take width = (a.drop offset).take width ++
      (b.take (min b.length (offset + width - a.length))).drop (offset - a.length) := by
  rw [List.drop_append, List.take_append, List.length_drop, List.drop_take]
  congr 1
  rw [List.take_eq_take_iff, List.length_drop]
  omega

/-- The state after the first bytes of a text. -/
structure Reads (content : List Char) (offset width : Nat) (done : List Nat) (s : ReadState) :
    Prop where
  decoded : ∃ t t', content = t ++ t' ∧ done = Utf8.encode t ++ s.buffer ∧
    s.totalCharacters = t.length ∧ s.pieces.flatten = (t.drop offset).take width ∧
    Utf8.IsCut s.buffer t'
  totalBytes : s.totalBytes = done.length
  hashed : s.hashed = done
  valid : s.invalidUtf8 = false

theorem flatten_collect {s : ReadState} {t : List Char} {offset width : Nat}
    (hc : s.totalCharacters = t.length) (hp : s.pieces.flatten = (t.drop offset).take width)
    (text : List Char) : (s.collect offset width text).pieces.flatten =
      ((t ++ text).drop offset).take width := by
  rw [slice_append, ← hp, ReadState.collect]
  dsimp only
  rw [hc]
  split
  · simp
  · next hlt =>
    rw [List.drop_eq_nil_of_le, List.append_nil]
    rw [List.length_take]
    omega

theorem reads_init (content : List Char) (offset width : Nat) :
    Reads content offset width [] {} where
  decoded := ⟨[], content, rfl, rfl, rfl, by simp, .inl rfl⟩
  totalBytes := rfl
  hashed := rfl
  valid := rfl

theorem Reads.chunk {content : List Char} {offset width : Nat} {done chunk post : List Nat}
    {s : ReadState} (h : Reads content offset width done s)
    (hfile : done ++ chunk ++ post = Utf8.encode content) :
    Reads content offset width (done ++ chunk)
      ({ s with
        totalBytes := s.totalBytes + chunk.length
        hashed := s.hashed ++ chunk }.decode offset width false chunk) := by
  obtain ⟨t, t', rfl, hdone, hchars, hpieces, hcut⟩ := h.decoded
  have henc : Utf8.encode (t ++ t') = Utf8.encode t ++ Utf8.encode t' := by simp [Utf8.encode]
  have hrest : (s.buffer ++ chunk) ++ post = Utf8.encode t' := by
    rw [henc, hdone] at hfile
    simpa using hfile
  obtain ⟨u, u', p, rfl, hpre, -, hcut'⟩ := Utf8.encode_cut hrest
  have hdecode : Utf8.decode false 0 (s.buffer ++ chunk) = some (u, p) := by
    rw [hpre]
    exact Utf8.decode_encode u u' p hcut'
  have hstep : ({ s with
      totalBytes := s.totalBytes + chunk.length
      hashed := s.hashed ++ chunk }.decode offset width false chunk) =
      { ({ s with
        totalBytes := s.totalBytes + chunk.length
        hashed := s.hashed ++ chunk } : ReadState).collect offset width u with buffer := p } := by
    simp [ReadState.decode, h.valid, hdecode]
  rw [hstep]
  refine ⟨⟨t ++ u, u', by simp, ?_, ?_, ?_, hcut'⟩, ?_, ?_, h.valid⟩
  · rw [hdone, List.append_assoc, hpre]
    simp [Utf8.encode]
  · simp [ReadState.collect, hchars]
  · exact flatten_collect hchars hpieces u
  · simp [ReadState.collect, h.totalBytes]
  · simp [ReadState.collect, h.hashed]

/-- After all chunks the bytes of the file were seen, however they were cut. -/
theorem readChunks_reads {content : List Char} {offset width : Nat} {chunks : List (List Nat)}
    {done : List Nat} {s : ReadState} (h : Reads content offset width done s)
    (hchunks : ∀ chunk ∈ chunks, chunk ≠ [])
    (hfile : done ++ chunks.flatten = Utf8.encode content) :
    Reads content offset width (Utf8.encode content)
      (readChunks (Utf8.encode content).length offset width chunks s) := by
  induction chunks generalizing done s with
  | nil =>
    rw [List.flatten_nil, List.append_nil] at hfile
    subst hfile
    exact h
  | cons chunk chunks ih =>
    rw [List.flatten_cons, ← List.append_assoc] at hfile
    have hlen : s.totalBytes ≤ (Utf8.encode content).length := by
      rw [h.totalBytes, ← hfile]
      simp
    rw [readChunks, if_pos ⟨hlen, hchunks chunk (by simp)⟩]
    exact ih (h.chunk hfile) (fun c hc => hchunks c (by simp [hc])) hfile

/-- The end of the file completes the text. -/
theorem Reads.final {content : List Char} {offset width : Nat} {s : ReadState}
    (h : Reads content offset width (Utf8.encode content) s) :
    (s.decode offset width true []).pieces.flatten = (content.drop offset).take width ∧
    (s.decode offset width true []).totalCharacters = content.length ∧
    (s.decode offset width true []).totalBytes = (Utf8.encode content).length ∧
    (s.decode offset width true []).hashed = Utf8.encode content ∧
    (s.decode offset width true []).invalidUtf8 = false := by
  obtain ⟨t, t', rfl, hdone, hchars, hpieces, -⟩ := h.decoded
  have hbuffer : s.buffer = Utf8.encode t' := by
    have henc : Utf8.encode (t ++ t') = Utf8.encode t ++ Utf8.encode t' := by simp [Utf8.encode]
    rw [henc] at hdone
    exact (List.append_cancel_left hdone).symm
  have hstep : s.decode offset width true [] =
      { s.collect offset width t' with buffer := [] } := by
    simp [ReadState.decode, h.valid, hbuffer, Utf8.decode_final]
  rw [hstep]
  refine ⟨flatten_collect hchars hpieces t', ?_, ?_, ?_, h.valid⟩
  · simp [ReadState.collect, hchars]
  · simp [ReadState.collect, h.totalBytes]
  · simp [ReadState.collect, h.hashed]

/-- Reading a file in chunks gives the page of the decoded text. -/
theorem readTextFile_eq (sha256 : List Nat → String) (casefold : Char → List Char) (stack : Nat)
    {content : List Char} {chunks : List (List Nat)} (hchunks : ∀ chunk ∈ chunks, chunk ≠ [])
    (hfile : chunks.flatten = Utf8.encode content) {digest : Option String}
    (hdigest : ∀ d, digest = some d → d = "" ∨ sha256 (Utf8.encode content) = d)
    (handleId : String) (offset limit maxCharacters : Nat) :
    readTextFile sha256 stack (some chunks) (Utf8.encode content).length digest handleId offset
        limit maxCharacters =
      (readTextArtifact casefold stack handleId content offset limit [] maxCharacters).map
        fun page => (true, page) := by
  obtain ⟨hpieces, hchars, hbytes, hhashed, hvalid⟩ :=
    (readChunks_reads (reads_init content offset (min limit maxCharacters)) hchunks hfile).final
  have hgood : digest.any (fun d => d ≠ "" && sha256 (Utf8.encode content) ≠ d) = false := by
    cases digest with
    | none => rfl
    | some d => obtain h | h := hdigest d rfl <;> simp [h]
  simp only [readTextFile, readTextArtifact, if_true]
  rw [hbytes, hhashed, hvalid, hpieces, hchars]
  rw [if_neg, if_neg (by simp)]
  rw [hgood]
  simp

/-! Following the cursor. -/

/-- The pages a reader gets, as answers of the operation. -/
def textPager (read : Nat → Option (Bool × Json)) : Pager Char (Option (Bool × Json)) where
  read := read
  refused reply := reply.all fun r => !r.1 || (r.2.get "error_code").isStr
  next reply := reply.bind fun r => match r.2.get "next_offset" with
    | .int n => some n.toNat
    | _ => none
  shown reply := reply.elim [] fun r => match r.2.get "content" with
    | .str text => text.toList
    | _ => []

section Paging

variable (sha256 : List Nat → String) (stack : Nat) (chunks : Nat → List (List Nat))
  (content : List Char) (digest : Option String) (handleId : String) (limit maxCharacters : Nat)

/-- The text operation at each offset; the file may be cut differently in every call. -/
def readText (offset : Nat) : Option (Bool × Json) :=
  readTextFile sha256 stack (some (chunks offset)) (Utf8.encode content).length digest handleId
    offset limit maxCharacters

/-- The piece of the text that a page is taken from. -/
def window (offset : Nat) : List Char :=
  (content.drop offset).take (min limit maxCharacters)

end Paging

section Paging

variable {sha256 : List Nat → String} {stack : Nat} {chunks : Nat → List (List Nat)}
  {content : List Char} {digest : Option String} {handleId : String} {limit maxCharacters : Nat}

variable (handleId limit maxCharacters) in
/-- The answer at an offset. -/
theorem readText_eq (hstack : 2 < stack) (hchunks : ∀ o, ∀ chunk ∈ chunks o, chunk ≠ [])
    (hfile : ∀ o, (chunks o).flatten = Utf8.encode content)
    (hdigest : ∀ d, digest = some d → d = "" ∨ sha256 (Utf8.encode content) = d) (offset : Nat) :
    ∃ best, LongestFit (fun l => pageSize handleId (window content limit maxCharacters offset)
        content.length offset none l ≤ (maxCharacters : Int))
        (window content limit maxCharacters offset).length best ∧
      readText sha256 stack chunks content digest handleId limit maxCharacters offset =
        some (true, if pageSize handleId (window content limit maxCharacters offset) content.length
            offset none best ≤ maxCharacters ∧ (best = 0 → content.length ≤ offset) then
            pageOf (window content limit maxCharacters offset) content.length offset
              (textBase handleId) none best
          else budgetTooSmall handleId offset) := by
  have hend : window content limit maxCharacters offset = [] ∨
      offset + (window content limit maxCharacters offset).length ≤ content.length := by
    by_cases ho : offset ≤ content.length
    · refine .inr ?_
      rw [window, List.length_take, List.length_drop]
      omega
    · left
      rw [window, List.drop_eq_nil_of_le (by omega), List.take_nil]
  obtain ⟨best, hbest, hpage⟩ := stringPage_text hstack hend handleId maxCharacters none
  refine ⟨best, hbest, ?_⟩
  rw [readText, readTextFile_eq sha256 (fun c => [c]) stack (hchunks offset) (hfile offset) hdigest]
  simp only [readTextArtifact, if_true]
  rw [window] at hpage
  rw [hpage]
  rfl

theorem shown_pageOf (fragment : List Char) (total offset best : Nat) :
    (textPager fun _ => none).shown
      (some (true, pageOf fragment total offset (textBase handleId) none best)) =
        fragment.take best := by
  rw [pageOf_textBase]
  exact String.toList_ofList

theorem next_pageOf (fragment : List Char) (total offset best : Nat) :
    (textPager fun _ => none).next
      (some (true, pageOf fragment total offset (textBase handleId) none best)) =
        if offset + best < total then some (offset + best) else none := by
  rw [pageOf_textBase]
  split <;> rfl

/-- The answers serve the text. -/
theorem serves_text (hstack : 2 < stack) (hchunks : ∀ o, ∀ chunk ∈ chunks o, chunk ≠ [])
    (hfile : ∀ o, (chunks o).flatten = Utf8.encode content)
    (hdigest : ∀ d, digest = some d → d = "" ∨ sha256 (Utf8.encode content) = d) :
    (textPager (readText sha256 stack chunks content digest handleId limit maxCharacters)).Serves
      content := by
  intro offset ho hr
  obtain ⟨best, hbest, hreply⟩ := readText_eq handleId limit maxCharacters hstack hchunks hfile
    hdigest offset
  rw [window] at hbest hreply
  by_cases hok : pageSize handleId ((content.drop offset).take (min limit maxCharacters))
      content.length offset none best ≤ maxCharacters ∧ (best = 0 → content.length ≤ offset)
  · rw [if_pos hok] at hreply
    have hle : best ≤ min (min limit maxCharacters) (content.length - offset) := by
      have := hbest.le
      rwa [List.length_take, List.length_drop] at this
    refine ⟨best, ?_, by omega, fun hlt => ?_, ?_⟩
    · refine (congrArg (textPager fun _ => none).shown hreply).trans ?_
      rw [shown_pageOf, List.take_take, Nat.min_eq_left (by omega)]
    · by_contra h0
      exact absurd (hok.2 (by omega)) (by omega)
    · exact (congrArg (textPager fun _ => none).next hreply).trans (next_pageOf ..)
  · rw [if_neg hok] at hreply
    have hrefused : (textPager fun _ => none).refused
        (readText sha256 stack chunks content digest handleId limit maxCharacters offset) = true := by
      rw [hreply]
      rfl
    exact absurd (hr.symm.trans hrefused) (by simp)

/-- A page that is refused is one that could not show a single character. -/
theorem refused_text (hstack : 2 < stack) (hchunks : ∀ o, ∀ chunk ∈ chunks o, chunk ≠ [])
    (hfile : ∀ o, (chunks o).flatten = Utf8.encode content)
    (hdigest : ∀ d, digest = some d → d = "" ∨ sha256 (Utf8.encode content) = d)
    (hlimit : 1 ≤ limit) (hmax : 1 ≤ maxCharacters) {offset : Nat}
    (hr : (textPager (readText sha256 stack chunks content digest handleId limit
      maxCharacters)).refused
        (readText sha256 stack chunks content digest handleId limit maxCharacters offset) = true) :
    readText sha256 stack chunks content digest handleId limit maxCharacters offset =
      some (true, budgetTooSmall handleId offset) ∧
    (maxCharacters : Int) < pageSize handleId (content.drop offset) content.length offset none
      (min 1 (content.length - offset)) := by
  obtain ⟨best, hbest, hreply⟩ := readText_eq handleId limit maxCharacters hstack hchunks hfile
    hdigest offset
  by_cases hok : pageSize handleId (window content limit maxCharacters offset) content.length offset
      none best ≤ maxCharacters ∧ (best = 0 → content.length ≤ offset)
  · rw [if_pos hok] at hreply
    rw [hreply] at hr
    cases hr
  · rw [if_neg hok] at hreply
    refine ⟨hreply, ?_⟩
    have hwidth : min 1 (content.length - offset) ≤ min limit maxCharacters := by omega
    have hsame : pageSize handleId (content.drop offset) content.length offset none
        (min 1 (content.length - offset)) = pageSize handleId
          (window content limit maxCharacters offset) content.length offset none
          (min 1 (content.length - offset)) := by
      rw [pageSize, pageSize, pageOf_textBase, pageOf_textBase, window, List.take_take,
        Nat.min_eq_left hwidth]
    rw [hsame]
    have hlen : (window content limit maxCharacters offset).length =
        min (min limit maxCharacters) (content.length - offset) := by
      rw [window, List.length_take, List.length_drop]
    have hle := hbest.le
    by_contra hfit
    rw [Int.not_lt] at hfit
    by_cases hend : content.length ≤ offset
    · obtain rfl : best = 0 := by omega
      rw [Nat.sub_eq_zero_of_le hend, Nat.min_zero] at hfit
      exact hok ⟨hfit, fun _ => hend⟩
    · rw [Nat.min_eq_left (by omega)] at hfit
      have hone := hbest.longest 1 Nat.one_pos (by omega) (by simpa using hfit)
      exact hok ⟨by simpa using hbest.holds (by omega), by omega⟩

variable (sha256 stack chunks content digest handleId limit maxCharacters) in
/-- Following the cursor from 0 gives the text exactly, page by page as long as the budget
allows, however the file is cut into reads. -/
theorem text_pages_exact (casefold : Char → List Char) (hstack : 2 < stack)
    (hchunks : ∀ o, ∀ chunk ∈ chunks o, chunk ≠ [])
    (hfile : ∀ o, (chunks o).flatten = Utf8.encode content)
    (hdigest : ∀ d, digest = some d → d = "" ∨ sha256 (Utf8.encode content) = d)
    (hlimit : 1 ≤ limit) (hmax : 1 ≤ maxCharacters) :
    ∃ pages ending, (textPager (readText sha256 stack chunks content digest handleId limit
        maxCharacters)).Walk 0 pages ending ∧
      (pages.map Prod.fst).Pairwise (· < ·) ∧
      (∀ p ∈ pages, p.2 = (readTextArtifact casefold stack handleId content p.1 limit []
        maxCharacters).map fun page => (true, page)) ∧
      (∀ p ∈ pages, ∃ length,
        p.2 = some (true, pageOf (window content limit maxCharacters p.1) content.length p.1
          (textBase handleId) none length) ∧
        pageSize handleId (window content limit maxCharacters p.1) content.length p.1 none length ≤
          maxCharacters ∧
        LongestFit (fun l => pageSize handleId (window content limit maxCharacters p.1)
          content.length p.1 none l ≤ (maxCharacters : Int))
          (window content limit maxCharacters p.1).length length) ∧
      match ending with
      | .finished => pages.flatMap (fun p => (textPager fun _ => none).shown p.2) = content
      | .refused offset =>
        pages.flatMap (fun p => (textPager fun _ => none).shown p.2) = content.take offset ∧
        readText sha256 stack chunks content digest handleId limit maxCharacters offset =
          some (true, budgetTooSmall handleId offset) ∧
        (maxCharacters : Int) < pageSize handleId (content.drop offset) content.length offset none
          (min 1 (content.length - offset)) := by
  have hserves : (textPager (readText sha256 stack chunks content digest handleId limit
      maxCharacters)).Serves content := serves_text hstack hchunks hfile hdigest
  obtain ⟨pages, ending, hwalk⟩ := Pager.exists_walk hserves (Nat.zero_le content.length)
  obtain ⟨hmem, hincreasing, hcovers⟩ := hwalk.covers hserves (Nat.zero_le content.length)
  refine ⟨pages, ending, hwalk, hincreasing, fun p hp => ?_, fun p hp => ?_, ?_⟩
  · rw [(hmem p hp).2.2.1]
    exact readTextFile_eq sha256 casefold stack (hchunks p.1) (hfile p.1) hdigest handleId p.1 limit
      maxCharacters
  · obtain ⟨-, -, hread, hrefused⟩ := hmem p hp
    obtain ⟨best, hbest, hreply⟩ := readText_eq handleId limit maxCharacters hstack hchunks hfile
      hdigest p.1
    have hp2 : p.2 = _ := hread.trans hreply
    by_cases hok : pageSize handleId (window content limit maxCharacters p.1) content.length p.1
        none best ≤ maxCharacters ∧ (best = 0 → content.length ≤ p.1)
    · rw [if_pos hok] at hp2
      exact ⟨best, hp2, hok.1, hbest⟩
    · rw [if_neg hok] at hp2
      rw [hp2] at hrefused
      cases hrefused
  · cases ending with
    | finished => exact hcovers
    | refused offset =>
      obtain ⟨-, -, hrefused, hshown⟩ := hcovers
      exact ⟨hshown, refused_text hstack hchunks hfile hdigest hlimit hmax hrefused⟩

end Paging

/-- The three bytes of `aé`, the last character cut in two. -/
theorem text_pages_exact_sample :
    ∃ pages ending, (textPager (readText (fun _ =>
        "561951c2b8c47984b8b4b8ae1f173a03d9c703f66cf36f145e27bc6145499f74") 8
        (fun _ => [[97, 195], [169]]) ['a', 'é']
        (some "561951c2b8c47984b8b4b8ae1f173a03d9c703f66cf36f145e27bc6145499f74") "h1" 1 260)).Walk
        0 pages ending ∧ (pages.map Prod.fst).Pairwise (· < ·) := by
  have hdigest : ∀ d, some "561951c2b8c47984b8b4b8ae1f173a03d9c703f66cf36f145e27bc6145499f74" =
      some d → d = "" ∨ "561951c2b8c47984b8b4b8ae1f173a03d9c703f66cf36f145e27bc6145499f74" = d :=
    fun d hd => .inr (Option.some.inj hd)
  obtain ⟨pages, ending, hwalk, hincreasing, -⟩ := text_pages_exact (fun _ =>
      "561951c2b8c47984b8b4b8ae1f173a03d9c703f66cf36f145e27bc6145499f74") 8
    (fun _ => [[97, 195], [169]]) ['a', 'é']
    (some "561951c2b8c47984b8b4b8ae1f173a03d9c703f66cf36f145e27bc6145499f74") "h1" 1 260
    (fun c => [c]) (by decide) (by simp) (fun _ => rfl) hdigest (by decide) (by decide)
  exact ⟨pages, ending, hwalk, hincreasing⟩

end Yuki.ToolResults

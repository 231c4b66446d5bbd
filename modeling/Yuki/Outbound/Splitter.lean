import Yuki.Lib.Pieces
import Yuki.Lib.PyText

/-! Plain rendering: a reply is cut at chat lines, fenced blocks, paragraphs and sentences,
and last between code points. -/

namespace Yuki.Outbound

open Pieces

/-- A text is a sequence of code points. -/
abbrev Text := List Char

/-! Text operations of `str`. -/

/-- `not text.strip()`. -/
def isBlank (t : Text) : Bool :=
  t.all isSpace

/-- `text.strip()`. -/
def stripped (t : Text) : Text :=
  ((t.dropWhile isSpace).reverse.dropWhile isSpace).reverse

/-- `"\n".join(lines)`. -/
def joinLines : List Text → Text
  | [] => []
  | [line] => line
  | line :: lines => line ++ '\n' :: joinLines lines

def isLineBreak (c : Char) : Bool :=
  [0x0a, 0x0b, 0x0c, 0x0d, 0x1c, 0x1d, 0x1e, 0x85, 0x2028, 0x2029].contains c.toNat

/-- `text.splitlines()`. -/
def splitlines : Text → List Text
  | [] => []
  | '\r' :: '\n' :: cs => [] :: splitlines cs
  | c :: cs =>
    if isLineBreak c then [] :: splitlines cs
    else match splitlines cs with
      | [] => [[c]]
      | line :: lines => (c :: line) :: lines

/-! Patterns. -/

/-- Where a text first occurs in another. -/
def find (pattern : Text) : Text → Option Nat
  | [] => if pattern.isEmpty then some 0 else none
  | c :: cs =>
    if pattern.isPrefixOf (c :: cs) then some 0 else (find pattern cs).map (· + 1)

def backticks : Text :=
  "```".toList

def tildes : Text :=
  "~~~".toList

/-- The opening mark with the rest of its line, then everything up to the first line that
begins with the mark. -/
def fencedBy (mark t : Text) : Option Nat :=
  if mark.isPrefixOf t then
    let start := mark.length + ((t.drop mark.length).takeWhile (· != '\n')).length + 1
    (find ('\n' :: mark) (t.drop start)).map fun n => start + n + 1 + mark.length
  else none

/-- `_FENCED_BLOCK`. -/
def fencedBlock (t : Text) : Option Nat :=
  (fencedBy backticks t).or (fencedBy tildes t)

/-- `\n\s*\n`. -/
def paragraphBreak : Text → Option Nat
  | '\n' :: cs =>
    let run := (cs.takeWhile isSpace).reverse.dropWhile (· != '\n')
    if run.isEmpty then none else some (run.length + 1)
  | _ => none

def isSentenceEnd (c : Char) : Bool :=
  "。！？!?；;".toList.contains c

/-- `_SENTENCE_BOUNDARY.split(text)`. -/
def sentences : Text → List Text
  | [] => [[]]
  | c :: cs =>
    if isSentenceEnd c then [c] :: sentences cs else (sentences cs).modifyHead (c :: ·)

/-- `_CHAT_LINE_BREAK.split(text)`. -/
def chatLines : Text → List Text
  | [] => [[]]
  | '\n' :: '\n' :: cs => chatLines ('\n' :: cs)
  | c :: cs => if c = '\n' then [] :: chatLines cs else (chatLines cs).modifyHead (c :: ·)

/-- The zeros of the decimal digits. -/
def decimalZeros : List Nat :=
  [0x30, 0x660, 0x6f0, 0x7c0, 0x966, 0x9e6, 0xa66, 0xae6, 0xb66, 0xbe6, 0xc66, 0xce6, 0xd66,
    0xde6, 0xe50, 0xed0, 0xf20, 0x1040, 0x1090, 0x17e0, 0x1810, 0x1946, 0x19d0, 0x1a80, 0x1a90,
    0x1b50, 0x1bb0, 0x1c40, 0x1c50, 0xa620, 0xa8d0, 0xa900, 0xa9d0, 0xa9f0, 0xaa50, 0xabf0,
    0xff10, 0x104a0, 0x10d30, 0x11066, 0x110f0, 0x11136, 0x111d0, 0x112f0, 0x11450, 0x114d0,
    0x11650, 0x116c0, 0x11730, 0x118e0, 0x11950, 0x11c50, 0x11d50, 0x11da0, 0x11f50, 0x16a60,
    0x16ac0, 0x16b50, 0x1d7ce, 0x1d7d8, 0x1d7e2, 0x1d7ec, 0x1d7f6, 0x1e140, 0x1e2f0, 0x1e4f0,
    0x1e950, 0x1fbf0]

/-- `\d`. -/
def isDecimal (c : Char) : Bool :=
  decimalZeros.any fun zero => zero ≤ c.toNat && c.toNat < zero + 10

def isTabOrSpace (c : Char) : Bool :=
  c == ' ' || c == '\t'

/-- One of the characters, then white space. -/
def bullet (marks t : Text) : Bool :=
  match t with
  | c :: d :: _ => marks.contains c && isSpace d
  | _ => false

/-- `\d+[.)、]\s+`. -/
def numbered (t : Text) : Bool :=
  let digits := t.takeWhile isDecimal
  !digits.isEmpty && bullet ".)、".toList (t.drop digits.length)

/-- `#{1,6}\s+`. -/
def heading (t : Text) : Bool :=
  let marks := t.takeWhile (· == '#')
  1 ≤ marks.length && marks.length ≤ 6 && ((t.drop marks.length).head?.any isSpace)

/-- `\|.*\|[ \t]*$`. -/
def tableRow (t : Text) : Bool :=
  let row := ((t.takeWhile (· != '\n')).reverse.dropWhile isTabOrSpace).reverse
  row.head? == some '|' && row.getLast? == some '|' && 2 ≤ row.length

/-- `_STRUCTURED_CHAT_OUTPUT` at the start of a line. -/
def structuredLine (line : Text) : Bool :=
  let t := line.dropWhile isTabOrSpace
  backticks.isPrefixOf t || tildes.isPrefixOf t || bullet "-*+".toList t || numbered t ||
    bullet ">".toList t || heading t || tableRow t

def structuredFrom : Bool → Text → Bool
  | _, [] => false
  | lineStart, c :: cs =>
    (lineStart && structuredLine (c :: cs)) || structuredFrom (c == '\n') cs

/-- `_STRUCTURED_CHAT_OUTPUT.search(text) is not None`. -/
def structured (t : Text) : Bool :=
  structuredFrom true t

/-! `renderer`. -/

/-- `_split_sentence`; where a sentence does not fit beside the current ones there are some. -/
def splitSentence (text : Text) (limit : Nat) : List Text :=
  greedy limit (fun current => if current.isEmpty then [] else [current]) (blocks limit) []
    ((sentences text).filter (!·.isEmpty))

/-- `split_qq_message`. -/
def splitQqMessage (text : Text) (limit : Nat) : List Text :=
  if text.isEmpty then []
  else greedy limit (fun current => if isBlank current then [] else [stripped current])
    (fun paragraph => ((splitSentence paragraph limit).filter (!isBlank ·)).map stripped) []
    ((split paragraphBreak text.length text).filter (!·.isEmpty))

/-! `OutboundMessageSplitter`. -/

/-- `runtime.reply`. -/
structure ReplyConfig where
  hardMaxMessages : Nat
  maxQqMessageChars : Nat

/-- `_split_chat_line_sections`. -/
def splitChatLineSections (text : Text) (maxMessages : Nat) : List Text :=
  let sections := ((chatLines text).filter (!isBlank ·)).map stripped
  if sections.length < 2 then if text.isEmpty then [] else [text]
  else if sections.length ≤ maxMessages then sections
  else
    let groupIndex (entry : Text × Nat) :=
      min (entry.2 * maxMessages / sections.length) (maxMessages - 1)
    ((buckets maxMessages groupIndex sections.zipIdx).filter (!·.isEmpty)).map fun group =>
      joinLines (group.map (·.1))

/-- The loop over the body lines of a block: the inner texts of its chunks. -/
def splitBody (available : Nat) : List Text → Nat → List Text → List Text
  | current, _, [] => if current.isEmpty then [] else [joinLines current]
  | current, currentLength, line :: lines =>
    let extra := line.length + if current.isEmpty then 0 else 1
    let full := !current.isEmpty && available < currentLength + extra
    let chunks := if full then [joinLines current] else []
    let current := if full then [] else current
    let currentLength := if full then 0 else currentLength
    if available < line.length then
      chunks ++ (if current.isEmpty then [] else [joinLines current]) ++ blocks available line ++
        splitBody available [] (if current.isEmpty then currentLength else 0) lines
    else chunks ++ splitBody available (current ++ [line]) (currentLength + extra) lines

-- The equations of the loops are made here, once, for all the lemmas about them.
example (available length : Nat) : splitBody available [] length [] = [] := by
  rw [splitBody]
  rfl

example (line : Text) : joinLines (line :: splitlines []) = line := by
  rw [splitlines, joinLines]

example : chatLines [] = sentences [] := by
  rw [chatLines, sentences]

def openingLine (block : Text) : Text :=
  (splitlines block).headD []

def closingLine (block : Text) : Text :=
  (splitlines block).getLastD []

def bodyLines (block : Text) : List Text :=
  (splitlines block).tail.dropLast

/-- The room between the opening and the closing line. -/
def available (block : Text) (limit : Nat) : Nat :=
  max 1 (limit - (openingLine block).length - (closingLine block).length - 2)

/-- A chunk of a block. -/
def reopened (block inner : Text) : Text :=
  openingLine block ++ '\n' :: inner ++ '\n' :: closingLine block

/-- `_split_fenced_block`. -/
def splitFencedBlock (block : Text) (limit : Nat) : List Text :=
  if block.length ≤ limit || (splitlines block).length < 3 then [block]
  else (splitBody (available block limit) [] 0 (bodyLines block)).map (reopened block)

def startsWithFence (part : Text) : Bool :=
  backticks.isPrefixOf part || tildes.isPrefixOf part

def splitPart (limit : Nat) (part : Text) : List Text :=
  if startsWithFence part then splitFencedBlock part limit else splitQqMessage part limit

/-- The parts of a message, at its fenced blocks. -/
def fencedParts (message : Text) : List Text :=
  (split fencedBlock message.length message).filter (!·.isEmpty)

/-- `_split_preserving_structure`. -/
def splitPreservingStructure (limit : Nat) (text : Text) : List Text :=
  if text.length ≤ limit then if text.isEmpty then [] else [text]
  else ((fencedParts text).flatMap (splitPart limit)).filter (!isBlank ·)

/-- The messages that are cut one by one. -/
def messagesOf (text : Text) (reply : ReplyConfig) : List Text :=
  if structured text then [text] else splitChatLineSections text reply.hardMaxMessages

def chunksOf (text : Text) (reply : ReplyConfig) : List Text :=
  (messagesOf text reply).flatMap (splitPreservingStructure reply.maxQqMessageChars)

/-- `render`. -/
def render (text : Text) (reply : ReplyConfig) : List Text :=
  let chunks := chunksOf text reply
  if chunks.length ≤ reply.hardMaxMessages then chunks
  else chunks.take (reply.hardMaxMessages - 1) ++
    [joinLines (chunks.drop (reply.hardMaxMessages - 1))]

end Yuki.Outbound

import Yuki.Outbound.Splitter
import Yuki.Outbound.Transport

/-! Rendering with mentions: the policy of the plain rendering on spans of the source text,
so that no cut parts a mention from its place. -/

namespace Yuki.Outbound

open Pieces

/-- A start and an end in a text. -/
abbrev Span := Nat × Nat

/-- `text[start:end]`. -/
def textAt (text : Text) (span : Span) : Text :=
  (text.take span.2).drop span.1

def nonempty (span : Span) : Bool :=
  decide (span.1 < span.2)

/-- The spans of pieces that follow each other. -/
def spansFrom : Nat → List Text → List Span
  | _, [] => []
  | start, piece :: pieces =>
    (start, start + piece.length) :: spansFrom (start + piece.length) pieces

/-- `_trim_range`. -/
def trimRange (text : Text) (span : Span) : Span :=
  let raw := textAt text span
  (span.1 + raw.length - (raw.dropWhile isSpace).length,
    span.2 - raw.length + (raw.reverse.dropWhile isSpace).length)

/-! `_plain_ranges`. -/

/-- The loop over paragraphs or sentences; where one of them does not fit beside the current
sentences there are some. -/
def greedySpans (text : Text) (limit : Nat) (big : Span → List Span) : Span → List Span → List Span
  | current, [] => if current.1 < current.2 then [trimRange text current] else []
  | current, span :: spans =>
    let flushed := if current.1 < current.2 then [trimRange text current] else []
    if limit < span.2 - span.1 then
      flushed ++ big span ++ greedySpans text limit big (span.2, span.2) spans
    else if span.2 - current.1 ≤ limit then
      greedySpans text limit big (current.1, span.2) spans
    else flushed ++ greedySpans text limit big span spans

/-- `range(start, end, limit)`, each index with the end of its block. -/
def blockSpans (limit : Nat) (span : Span) : List Span :=
  (List.range ((span.2 - span.1 + limit - 1) / limit)).map fun i =>
    (span.1 + i * limit, min (span.1 + i * limit + limit) span.2)

def sentenceSpans (text : Text) (limit : Nat) (span : Span) : List Span :=
  greedySpans text limit (fun sentence => (blockSpans limit sentence).map (trimRange text))
    (span.1, span.1)
    (spansFrom span.1 ((sentences (textAt text span)).filter (!·.isEmpty)))

/-- `_plain_ranges`. -/
def plainRanges (text : Text) (limit : Nat) : List Span :=
  (greedySpans text limit (sentenceSpans text limit) (0, 0)
    (spansFrom 0 ((split paragraphBreak text.length text).filter (!·.isEmpty)))).filter nonempty

/-! `_source_sections`. -/

def endsBy (stop : Nat) (mention : TransportMention) : Bool :=
  decide (mention.textEnd ≤ (stop : Int))

def startsBefore (stop : Nat) (mention : TransportMention) : Bool :=
  decide (mention.textStart < (stop : Int))

/-- The first loop: a span that would cut a mention waits for the next one. -/
def atomicSpans : List TransportMention → Option Nat → List Span → List Span
  | _, _, [] => []
  | mentions, pendingStart, span :: spans =>
    let start := pendingStart.getD span.1
    match mentions.dropWhile (endsBy span.2) with
    | [] => (start, span.2) :: atomicSpans [] none spans
    | mention :: rest =>
      if startsBefore span.2 mention then atomicSpans (mention :: rest) (some start) spans
      else (start, span.2) :: atomicSpans (mention :: rest) none spans

/-- The second loop, which `render_message` has too: each span takes the mentions that start
before its end. -/
def sectionsAt (message : TransportMessage) : List TransportMention → List Span →
    List TransportMessage
  | _, [] => []
  | mentions, span :: spans =>
    { message with
      text := textAt message.text span
      mentions := (mentions.takeWhile (startsBefore span.2)).map (·.shift (-span.1))
      replyReference := none } ::
      sectionsAt message (mentions.dropWhile (startsBefore span.2)) spans

/-- `_source_sections`. -/
def sourceSections (message : TransportMessage) (spans : List Span) : List TransportMessage :=
  sectionsAt message message.mentions (atomicSpans message.mentions none spans)

/-! `_split_spanned_structure`. -/

/-- `_FENCED_BLOCK.fullmatch(text)`. -/
def isCode (text : Text) : Bool :=
  [backticks, tildes].any fun mark =>
    mark.isPrefixOf text && ('\n' :: mark).isSuffixOf text &&
      decide ((text.takeWhile (· != '\n')).length + 1 + mark.length + 1 ≤ text.length)

/-- `text.index("\n") + 1`. -/
def openingEnd (text : Text) : Nat :=
  (text.takeWhile (· != '\n')).length + 1

/-- `text.rindex("\n")`. -/
def closingStart (text : Text) : Nat :=
  text.length - 1 - (text.reverse.takeWhile (· != '\n')).length

/-- `text.splitlines(keepends=True)`. -/
def splitlinesKeep : Text → List Text
  | [] => []
  | '\r' :: '\n' :: cs => ['\r', '\n'] :: splitlinesKeep cs
  | c :: cs =>
    if isLineBreak c then [c] :: splitlinesKeep cs
    else match splitlinesKeep cs with
      | [] => [[c]]
      | line :: lines => (c :: line) :: lines

/-- The spans of the lines, without their line feeds. -/
def lineSpans : Nat → List Text → List Span
  | _, [] => []
  | start, line :: lines =>
    (start, start + (line.reverse.dropWhile fun c => c == '\r' || c == '\n').length) ::
      lineSpans (start + line.length) lines

/-- Lines join the last group while they fit. -/
def groupSpans (available : Nat) : Option Span → List Span → List Span
  | none, [] => []
  | some group, [] => [group]
  | none, line :: lines => groupSpans available (some line) lines
  | some group, line :: lines =>
    if line.2 - group.1 ≤ available then groupSpans available (some (group.1, line.2)) lines
    else group :: groupSpans available (some line) lines

/-- `split_transport_message(part, limit)`. -/
def splitTransport (limit : Nat) (part : TransportMessage) :
    Except SplitError (List TransportMessage) :=
  (splitTransportMessage part limit none part.text.length).getD (.ok [])

/-- A section of a message that is too long, and the parts it becomes; `code` where these are
the chunks of a code block. -/
structure Run where
  source : TransportMessage
  code : Bool
  parts : List TransportMessage

/-- The chunk of a code block around a part of its body. -/
def enclosed (opening closing : Text) (part : TransportMessage) : TransportMessage :=
  { part with
    text := opening ++ part.text ++ closing
    mentions := part.mentions.map (·.shift opening.length) }

def codeOpening (block : TransportMessage) : Text :=
  block.text.take (openingEnd block.text)

def codeClosing (block : TransportMessage) : Text :=
  block.text.drop (closingStart block.text)

def codeRoom (block : TransportMessage) (limit : Nat) : Nat :=
  max 1 (limit - (codeOpening block).length - (codeClosing block).length)

/-- `(body,) = _source_sections(section, ((opening_end, closing_start),))`. -/
def codeBodies (block : TransportMessage) : List TransportMessage :=
  sourceSections block [(openingEnd block.text, closingStart block.text)]

def codeGroups (room : Nat) (body : TransportMessage) : List Span :=
  groupSpans room none (lineSpans 0 (splitlinesKeep body.text))

/-- A code block whose mentions all stand in its body. -/
def codeSection (sec : TransportMessage) : Bool :=
  isCode sec.text && sec.mentions.all fun mention =>
    !startsBefore (openingEnd sec.text) mention && endsBy (closingStart sec.text) mention

def codeParts (limit : Nat) (block : TransportMessage) :
    Except SplitError (List TransportMessage) := do
  let room := codeRoom block limit
  let sections := (codeBodies block).flatMap fun body =>
    sourceSections body (codeGroups room body)
  let bounded ← sections.mapM (splitTransport room)
  return bounded.flatten.map (enclosed (codeOpening block) (codeClosing block))

def plainParts (limit : Nat) (sec : TransportMessage) :
    Except SplitError (List TransportMessage) := do
  let bounded ← (sourceSections sec (plainRanges sec.text limit)).mapM
    (splitTransport limit)
  return bounded.flatten

def splitSection (limit : Nat) (sec : TransportMessage) : Except SplitError Run :=
  if codeSection sec then (codeParts limit sec).map (Run.mk sec true)
  else (plainParts limit sec).map (Run.mk sec false)

/-- The parts of a text at its fenced blocks. -/
def fenceSpans (text : Text) : List Span :=
  spansFrom 0 (fencedParts text)

/-- `_split_spanned_structure`, section by section. -/
def spannedRuns (limit : Nat) (message : TransportMessage) : Except SplitError (List Run) :=
  if message.text.length ≤ limit then .ok [⟨message, false, [message]⟩]
  else (sourceSections message (fenceSpans message.text)).mapM (splitSection limit)

/-! `render_message`. -/

def joinMentions : Int → List TransportMessage → List TransportMention
  | _, [] => []
  | length, part :: parts =>
    part.mentions.map (·.shift length) ++ joinMentions (length + part.text.length + 1) parts

/-- `_join_messages`. -/
def joinMessages (parts : List TransportMessage) : TransportMessage :=
  { text := joinLines (parts.map (·.text)), mentions := joinMentions 0 parts }

/-- `[^\n]+`. -/
def lineRun (t : Text) : Option Nat :=
  match t.takeWhile (· != '\n') with
  | [] => none
  | line => some line.length

/-- The trimmed chat lines of the text, or the text itself. -/
def chatSpans (text : Text) : List Span :=
  let lines := ((spans lineRun text.length 0 text).map (trimRange text)).filter nonempty
  if structured text || lines.length < 2 then [(0, text.length)] else lines

/-- The sections of a message, joined where there are too many. -/
def chatSections (message : TransportMessage) (reply : ReplyConfig) : List TransportMessage :=
  let sections := sectionsAt message message.mentions (chatSpans message.text)
  if !structured message.text && reply.hardMaxMessages < sections.length then
    let groupIndex (sec : TransportMessage × Nat) :=
      min (sec.2 * reply.hardMaxMessages / sections.length) (reply.hardMaxMessages - 1)
    ((buckets reply.hardMaxMessages groupIndex sections.zipIdx).filter (!·.isEmpty)).map
      fun group => joinMessages (group.map (·.1))
  else sections

/-- The runs of all sections. -/
def runsOf (message : TransportMessage) (reply : ReplyConfig) : Except SplitError (List Run) :=
  ((chatSections message reply).mapM (spannedRuns reply.maxQqMessageChars)).map List.flatten

/-- Only the first part refers to the message that is answered. -/
def referenced (reference : Option String) : List TransportMessage → List TransportMessage
  | [] => []
  | part :: parts =>
    { part with replyReference := reference } ::
      parts.map fun later => { later with replyReference := none }

def mergedParts (hardMax : Nat) (chunks : List TransportMessage) : List TransportMessage :=
  if hardMax < chunks.length then
    chunks.take (hardMax - 1) ++ [joinMessages (chunks.drop (hardMax - 1))]
  else chunks

/-- `render_message`. -/
def renderMessage (message : TransportMessage) (reply : ReplyConfig) :
    Except SplitError (List TransportMessage) :=
  if message.mentions.isEmpty then
    .ok (referenced message.replyReference
      ((render message.text reply).map fun text => { message with text := text }))
  else do
    let runs ← runsOf message reply
    return referenced message.replyReference
      (mergedParts reply.hardMaxMessages (runs.flatMap Run.parts))

end Yuki.Outbound

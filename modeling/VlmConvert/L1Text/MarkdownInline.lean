import VlmConvert.L1Text.Markup

/-!
# Inline Markdown

`src/mapping/markdown_inline.cpp`, and `unescape_markdown_literals` of
`src/mapping/layout.cpp`. A text with emphasis becomes inline HTML; math, code
spans and inline tags pass through.

A position is the suffix that starts there, and the byte before it where the
source looks back. Loops that advance by at least one byte carry the length of
the text as fuel.
-/
namespace VlmConvert.L1

open Bytes

/-- mirrors src/mapping/markdown_inline.cpp:22-24 -/
def mdPunct (c : UInt8) : Bool :=
  (0x21 ≤ c && c ≤ 0x2F) || (0x3A ≤ c && c ≤ 0x40) || (0x5B ≤ c && c ≤ 0x60) ||
    (0x7B ≤ c && c ≤ 0x7E)

def escapeByte (c : UInt8) : Bytes :=
  if c == 0x26 then ascii "&amp;"
  else if c == 0x3C then ascii "&lt;"
  else if c == 0x3E then ascii "&gt;"
  else if c == 0x22 then ascii "&quot;"
  else [c]

/-- mirrors src/mapping/markdown_inline.cpp:26-45 -/
def escapeInto (text : Bytes) : Bytes := text.flatMap escapeByte

/-! ## Literal spans -/

/-- The first `needle` that does not stand behind a backslash; `prev` is the
byte before. -/
def unescapedFind (needle : Bytes) : UInt8 → Bytes → Option (Bytes × Bytes)
  | _, [] => none
  | prev, c :: rest =>
    if needle.isPrefixOf (c :: rest) && prev != 0x5C then some ([], c :: rest)
    else (unescapedFind needle c rest).map fun r => (c :: r.1, r.2)

/-- Up to a '$' on the same line that does not stand behind a backslash. -/
def dollarEnd : UInt8 → Bytes → Option (Bytes × Bytes)
  | _, [] => none
  | prev, c :: rest =>
    if c == 0x0A then none
    else if c == 0x24 && prev != 0x5C then some ([c], rest)
    else (dollarEnd c rest).map fun r => (c :: r.1, r.2)

/-- A `<code>` element in any case, through its exact close tag. -/
def codeElement (l : Bytes) : Option (Bytes × Bytes) :=
  if (l.take 5).map toLower == ascii "<code" && (l.drop 5).head?.all (fun c => !isAlnum c) then
    match findByte 0x3E (l.map toLower) with
    | none => none
    | some (before, gt) =>
      match findSub (ascii "</code>") gt with
      | none => none
      | some (inside, _) =>
        let n := before.length + inside.length + 7
        some (l.take n, l.drop n)
  else none

/-- The literal span at a position (math, a `<code>` element) and what is left.
mirrors src/mapping/markdown_inline.cpp:47-102 -/
def literalEnd (prev : Option UInt8) (l : Bytes) : Option (Bytes × Bytes) :=
  if prev == some 0x5C then none
  else if (ascii "$$").isPrefixOf l then
    (unescapedFind (ascii "$$") 0x24 (l.drop 2)).map fun r =>
      (ascii "$$" ++ r.1 ++ ascii "$$", r.2.drop 2)
  else if l.head? == some 0x24 then
    (dollarEnd 0x24 (l.drop 1)).map fun r => (0x24 :: r.1, r.2)
  else if (ascii "\\(").isPrefixOf l then
    (findSub (ascii "\\)") (l.drop 2)).map fun r => (ascii "\\(" ++ r.1 ++ ascii "\\)", r.2.drop 2)
  else if (ascii "\\[").isPrefixOf l then
    (findSub (ascii "\\]") (l.drop 2)).map fun r => (ascii "\\[" ++ r.1 ++ ascii "\\]", r.2.drop 2)
  else codeElement l

/-- To the '>' of a tag, over quoted values; `quote` is the open one. -/
def tagScan : Option UInt8 → Bytes → Option (Bytes × Bytes)
  | _, [] => none
  | some q, c :: rest =>
    (tagScan (if c == q then none else some q) rest).map fun r => (c :: r.1, r.2)
  | none, c :: rest =>
    if c == 0x22 || c == 0x27 then (tagScan (some c) rest).map fun r => (c :: r.1, r.2)
    else if c == 0x3E then some ([c], rest)
    else if c == 0x3C || c == 0x0A then none
    else (tagScan none rest).map fun r => (c :: r.1, r.2)

/-- An inline HTML tag and what is left.
mirrors src/mapping/markdown_inline.cpp:104-131 -/
def htmlTagEnd (l : Bytes) : Option (Bytes × Bytes) :=
  match l with
  | [] => none
  | c :: rest =>
    if c != 0x3C then none
    else
      let slash := if rest.head? == some 0x2F then [0x2F] else []
      let l' := rest.drop slash.length
      if l'.head?.any isAlpha then (tagScan none l').map fun r => (c :: slash ++ r.1, r.2) else none

/-- The code up to the next run of exactly `run` backticks, and what is behind
it. -/
def codeSpan (run : Nat) : Nat → Bytes → Option (Bytes × Bytes)
  | 0, _ => none
  | n + 1, l =>
    match findByte 0x60 l with
    | none => none
    | some (before, ticks) =>
      let len := (ticks.takeWhile (· == 0x60)).length
      if len = run then some (before, ticks.drop len)
      else (codeSpan run n (ticks.drop len)).map fun r => (before ++ ticks.take len ++ r.1, r.2)

/-- Newlines become blanks; one blank at each end goes. -/
def normaliseCode (code : Bytes) : Bytes :=
  let code := code.map fun c => if c == 0x0A then 0x20 else c
  if code.length ≥ 2 && code.head? == some 0x20 && code.getLast? == some 0x20 &&
      code.any (· != 0x20) then
    (code.drop 1).dropLast
  else code

/-! ## Tokens -/

/-- A run of text, or of emphasis delimiters.
mirrors src/mapping/markdown_inline.cpp:133-143 -/
structure Piece where
  html : Bytes := []
  delim : Bool := false
  ch : UInt8 := 0
  count : Nat := 0
  orig : Nat := 0
  canOpen : Bool := false
  canClose : Bool := false
  openTags : Bytes := []
  closeTags : Bytes := []
  deriving DecidableEq, Repr

inductive Token
  | raw (html : Bytes)
  | delim (piece : Piece)
  | newline
  deriving DecidableEq, Repr

/-- A delimiter run between two bytes.
mirrors src/mapping/markdown_inline.cpp:229-255 -/
def delimiter (c : UInt8) (run : Nat) (before after : UInt8) : Piece :=
  let left := !isSpace after && (!mdPunct after || isSpace before || mdPunct before)
  let right := !isSpace before && (!mdPunct before || isSpace after || mdPunct after)
  { delim := true
    ch := c
    count := run
    orig := run
    canOpen := if c == 0x2A then left else left && (!right || mdPunct before)
    canClose := if c == 0x2A then right else right && (!left || mdPunct after) }

/-- A backtick run: a code span, or backticks. -/
def backticks (l : Bytes) : Token × Bytes :=
  let run := (l.takeWhile (· == 0x60)).length
  match codeSpan run l.length (l.drop run) with
  | some (code, rest) =>
    (.raw (ascii "<code>" ++ escapeInto (normaliseCode code) ++ ascii "</code>"), rest)
  | none => (.raw (l.take run), l.drop run)

/-- The token at a position, and what is left.
mirrors src/mapping/markdown_inline.cpp:156-273 -/
def token (prev : Option UInt8) (c : UInt8) (rest : Bytes) : Token × Bytes :=
  let literal := if c == 0x24 || c == 0x5C || c == 0x3C then literalEnd prev (c :: rest) else none
  match literal with
  | some (text, left) => (.raw (if text.head? == some 0x3C then text else escapeInto text), left)
  | none =>
    if c == 0x60 then backticks (c :: rest)
    else if c == 0x5C && rest.head? == some 0x0A then (.raw (ascii "<br />\n"), rest.drop 1)
    else if c == 0x5C && rest.head?.any mdPunct then (.raw (escapeInto (rest.take 1)), rest.drop 1)
    else
      match htmlTagEnd (c :: rest) with
      | some (tag, left) => (.raw tag, left)
      | none =>
        if c == 0x2A || c == 0x5F then
          let run := ((c :: rest).takeWhile (· == c)).length
          let after := (c :: rest).drop run
          (.delim (delimiter c run (prev.getD 0x20) (after.head?.getD 0x20)), after)
        else if c == 0x0A then (.newline, rest.dropWhile fun c => c == 0x20 || c == 0x09)
        else (.raw (escapeByte c), rest)

def flush (buffer : Bytes) : List Piece := if buffer.isEmpty then [] else [{ html := buffer }]

/-- A line break: two blanks before it make it a hard one. -/
def breakLine (buffer : Bytes) : Bytes :=
  let kept := buffer.rdropWhile (· == 0x20)
  kept ++ if buffer.length - kept.length ≥ 2 then ascii "<br />\n" else [0x0A]

/-- The last byte passed over. -/
def lastPassed (l left : Bytes) : Option UInt8 := (l.take (l.length - left.length)).getLast?

/-- The pieces of a text, behind `buffer`. -/
def piecesFrom : Nat → Option UInt8 → Bytes → Bytes → List Piece
  | 0, _, buffer, _ => flush buffer
  | _ + 1, _, buffer, [] => flush buffer
  | n + 1, prev, buffer, c :: rest =>
    let t := token prev c rest
    let prev' := lastPassed (c :: rest) t.2
    match t.1 with
    | .raw html => piecesFrom n prev' (buffer ++ html) t.2
    | .delim piece => flush buffer ++ piece :: piecesFrom n prev' [] t.2
    | .newline => piecesFrom n prev' (breakLine buffer) t.2

def pieces (text : Bytes) : List Piece := piecesFrom text.length none [] text

/-! ## Emphasis -/

/-- The pieces, the open delimiters (the last one first), and per kind of
closer how many of them are known not to match. -/
structure Emphasis where
  pieces : List Piece
  stack : List Nat := []
  bottom : List ((UInt8 × Bool × Nat) × Nat) := []

def Emphasis.piece (e : Emphasis) (i : Nat) : Piece := e.pieces.getD i {}

/-- mirrors src/mapping/markdown_inline.cpp:294-303 -/
def opens (opener closer : Piece) : Bool :=
  let oddMatch := (opener.canClose || closer.canOpen) && (opener.orig + closer.orig) % 3 == 0 &&
    !(opener.orig % 3 == 0 && closer.orig % 3 == 0)
  opener.ch == closer.ch && opener.canOpen && opener.count != 0 && !oddMatch

/-- The stack from the nearest opener above `floor` on. -/
def Emphasis.findOpener (e : Emphasis) (closer : Piece) (floor : Nat) :
    List Nat → Option (Nat × List Nat)
  | [] => none
  | s :: below =>
    if below.length + 1 ≤ floor then none
    else if opens (e.piece s) closer then some (s, below)
    else e.findOpener closer floor below

def openTagOf (used : Nat) : Bytes := if used = 2 then ascii "<strong>" else ascii "<em>"
def closeTagOf (used : Nat) : Bytes := if used = 2 then ascii "</strong>" else ascii "</em>"

/-- One pair: the tags join their delimiters, and what stood between becomes
text. -/
def Emphasis.pair (e : Emphasis) (s index : Nat) (below : List Nat) : Emphasis :=
  let used := if (e.piece s).count ≥ 2 && (e.piece index).count ≥ 2 then 2 else 1
  { e with
    pieces := (e.pieces.modify s fun p =>
        { p with openTags := openTagOf used ++ p.openTags, count := p.count - used }).modify index
          fun p =>
      { p with closeTags := p.closeTags ++ closeTagOf used, count := p.count - used }
    stack := if (e.piece s).count = used then below else s :: below }

/-- The pairs a closer takes part in; `n` bounds how many. -/
def Emphasis.close (floor index : Nat) : Nat → Emphasis → Emphasis × Bool
  | 0, e => (e, false)
  | n + 1, e =>
    if (e.piece index).count = 0 then (e, false)
    else
      match e.findOpener (e.piece index) floor e.stack with
      | none => (e, false)
      | some (s, below) => ((Emphasis.close floor index n (e.pair s index below)).1, true)

/-- One piece of the loop.
mirrors src/mapping/markdown_inline.cpp:277-332 -/
def Emphasis.step (e : Emphasis) (index : Nat) : Emphasis :=
  let closer := e.piece index
  if !closer.delim then e
  else
    let e :=
      if closer.canClose then
        let key := (closer.ch, closer.canOpen, closer.orig % 3)
        let r := Emphasis.close ((e.bottom.lookup key).getD 0) index closer.count e
        if r.2 then r.1 else { r.1 with bottom := (key, r.1.stack.length) :: r.1.bottom }
      else e
    if (e.piece index).count > 0 && closer.canOpen then { e with stack := index :: e.stack } else e

def processEmphasis (pieces : List Piece) : List Piece :=
  ((List.range pieces.length).foldl Emphasis.step { pieces := pieces }).pieces

/-- What is left of a delimiter run sits outside its tags. -/
def Piece.render (piece : Piece) : Bytes :=
  if !piece.delim then piece.html
  else piece.closeTags ++ List.replicate piece.count piece.ch ++ piece.openTags

/-- mirrors src/mapping/markdown_inline.cpp:145-347 -/
def renderParagraph (text : Bytes) : Bytes := (processEmphasis (pieces text)).flatMap Piece.render

/-! ## Text without emphasis -/

/-- What passes through as it is: code, math and an escaped backslash. -/
def copiedSpan (l : Bytes) : Option (Bytes × Bytes) :=
  match l with
  | [] => none
  | c :: rest =>
    if c == 0x60 then
      let run := l.takeWhile (· == 0x60)
      match findSub run (l.dropWhile (· == 0x60)) with
      | some (code, close) => some (run ++ code ++ run, close.drop run.length)
      | none => some (run, l.dropWhile (· == 0x60))
    else if c == 0x24 then
      let display := rest.head? == some 0x24
      let delim := if display then ascii "$$" else ascii "$"
      match findSub delim (l.drop delim.length) with
      | some (math, close) =>
        if display || !math.contains 0x0A then
          some (delim ++ math ++ delim, close.drop delim.length) else none
      | none => none
    else if c == 0x5C && rest.head? == some 0x5C then some (ascii "\\\\", rest.drop 1)
    else if c == 0x5C && rest.head? == some 0x28 then
      (findSub (ascii "\\)") (rest.drop 1)).map fun r =>
        (ascii "\\(" ++ r.1 ++ ascii "\\)", r.2.drop 2)
    else if c == 0x5C && rest.head? == some 0x5B then
      (findSub (ascii "\\]") (rest.drop 1)).map fun r =>
        (ascii "\\[" ++ r.1 ++ ascii "\\]", r.2.drop 2)
    else none

def unescapeFrom : Nat → Bytes → Bytes
  | 0, l => l
  | _ + 1, [] => []
  | n + 1, c :: rest =>
    match copiedSpan (c :: rest) with
    | some (text, left) => text ++ unescapeFrom n left
    | none =>
      if c == 0x5C && (rest.head? == some 0x2A || rest.head? == some 0x5F) then
        rest.take 1 ++ unescapeFrom n (rest.drop 1)
      else c :: unescapeFrom n rest

/-- mirrors src/mapping/layout.cpp:340-397 -/
def unescapeMarkdownLiterals (text : Bytes) : Bytes := unescapeFrom text.length text

/-! ## Paragraphs -/

/-- A paragraph, if there is one. -/
def emitParagraph (paragraph : Bytes) : Bytes :=
  if (trim paragraph).isEmpty then []
  else ascii "<p>" ++ renderParagraph (trim paragraph) ++ ascii "</p>\n"

/-- Blank lines end a paragraph. -/
def renderLines : Bytes → List Bytes → Bytes
  | paragraph, [] => emitParagraph paragraph
  | paragraph, line :: lines =>
    if (trim line).isEmpty then emitParagraph paragraph ++ renderLines [] lines
    else renderLines (if paragraph.isEmpty then line else paragraph ++ 0x0A :: line) lines

/-- Line breaks become `<br>`; `skip` bytes belong to the last one. -/
def breakLines : Nat → Bytes → Bytes
  | _, [] => []
  | skip + 1, _ :: rest => breakLines skip rest
  | 0, c :: rest =>
    if (ascii "<br />\n").isPrefixOf (c :: rest) then ascii "<br>" ++ breakLines 6 rest
    else if c == 0x0A then ascii "<br>" ++ breakLines 0 rest
    else c :: breakLines 0 rest

/-- mirrors src/mapping/markdown_inline.cpp:351-404 -/
def markdownInlineHtml (text : Bytes) : Bytes :=
  if !text.contains 0x2A && !text.contains 0x5F then text
  else
    let rendered := renderLines [] (text.splitOn 0x0A)
    if (findSub (ascii "<strong>") rendered).isNone && (findSub (ascii "<em>") rendered).isNone then
      unescapeMarkdownLiterals text
    else breakLines 0 (trim rendered)

end VlmConvert.L1

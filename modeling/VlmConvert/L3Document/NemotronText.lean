import VlmConvert.L1Text.MathDelimiters
import VlmConvert.L2Table.Latex
import VlmConvert.L3Document.InlineFragment
import VlmConvert.L3Document.NemotronRegions
import VlmConvert.L3Document.PictureData

/-!
# What a Nemotron Parse body says

The texts both versions read out of a body (`src/mapping/nemotron.cpp:76-84`,
`383-457` and `533-880`, `src/mapping/layout.cpp:401-455`): Markdown as plain
text, the marker of a list item, and a chart as the pictures it becomes. The
`isspace`, `isalpha` and `ispunct` are those of the "C" locale.

Results: `markdownHeadingLevel_valid` and `splitLines_enough`.
-/
namespace VlmConvert.L3.Nemotron

open Bytes L1 L2 Chandra

/-! ## Markdown -/

/-- Every occurrence of a token is erased; the search goes on behind it.
mirrors src/mapping/nemotron.cpp:79-81 -/
def eraseToken (token : Bytes) : Nat → Bytes → Bytes
  | 0, text => text
  | n + 1, text =>
    match findSub token text with
    | none => text
    | some (before, rest) => before ++ eraseToken token n (rest.drop token.length)

/-- mirrors src/mapping/nemotron.cpp:76-84 -/
def removeArtifacts (text : Bytes) : Bytes :=
  ["<tbc>", "\\<|unk|\\>", "\\unknown"].foldl
    (fun text token => eraseToken (ascii token) text.length text)
    text

/-- The text of a link at a '[', and what is behind its destination.
mirrors src/mapping/layout.cpp:432-439 -/
def linkText (c : UInt8) (rest : Bytes) : Option (Bytes × Bytes) :=
  if c != 0x5B then none
  else
    match findSub (ascii "](") rest with
    | none => none
    | some (text, close) => (findByte 0x29 close).map fun paren => (text, paren.2.drop 1)

/-- A line without the marks of emphasis, code and links; `prev` is the byte
before.
mirrors src/mapping/layout.cpp:413-442 -/
def plainFrom : Nat → Option UInt8 → Bytes → Bytes
  | 0, _, _ => []
  | _ + 1, _, [] => []
  | n + 1, prev, c :: rest =>
    if c == 0x5C && rest.head?.any mdPunct then rest.take 1 ++ plainFrom n rest.head? (rest.drop 1)
    else if c == 0x2A || c == 0x60 then plainFrom n (some c) rest
    else if c == 0x5F && rest.head? == some 0x5F then plainFrom n (some c) (rest.drop 1)
    -- an underscore within a word is no mark
    else if c == 0x5F && (prev.all isSpace || rest.head?.all isSpace) then plainFrom n (some c) rest
    else
      match linkText c rest with
      | some (text, behind) => text ++ plainFrom n (some 0x29) behind
      | none => c :: plainFrom n (some c) rest

/-- mirrors src/mapping/layout.cpp:410-443 -/
def plainLine (line : Bytes) : Bytes :=
  let line := (stripMarkdownHeading (trim line)).1
  collapseWhitespace (plainFrom line.length none line)

/-- mirrors src/mapping/layout.cpp:401-455 -/
def markdownToText (markdown : Bytes) : Bytes :=
  [0x0A].intercalate (((markdown.splitOn 0x0A).map plainLine).filter fun plain => !plain.isEmpty)

/-- mirrors src/mapping/nemotron.cpp:580-594 -/
def markdownHeadingLevel (text : Bytes) (fallback : Nat) : Nat :=
  let inner := text.dropWhile isSpace
  let hashes := (inner.takeWhile (· == 0x23)).length
  if hashes = 0 ∨ 6 < hashes ∨ !(inner.dropWhile (· == 0x23)).head?.any isSpace then fallback
  else hashes

theorem markdownHeadingLevel_valid (text : Bytes) : ValidLevel (markdownHeadingLevel text 2) := by
  unfold markdownHeadingLevel ValidLevel
  dsimp only
  split
  · decide
  · rename_i h
    simp only [not_or, Nat.not_lt] at h
    obtain ⟨hpos, hle, -⟩ := h
    omega

/-! ## List markers -/

/-- What is behind the '.' or ')' of a marker. -/
def closeMarker : Bytes → Option Bytes
  | [] => none
  | c :: rest => if c == 0x2E || c == 0x29 then some rest else none

/-- A number, a letter or a roman numeral, and what is behind it.
mirrors src/mapping/nemotron.cpp:666-696 -/
def orderedMarker (text : Bytes) : Option Bytes :=
  let inner := if text.head? == some 0x28 then text.drop 1 else text
  let roman := fun c : UInt8 => (ascii "ivxlcdmIVXLCDM").contains c
  if inner.head?.any isDigit then closeMarker (inner.dropWhile isDigit)
  else if inner.head?.any isAlpha then
    (closeMarker (inner.drop 1)).or
      (if inner.head?.any roman then closeMarker (inner.dropWhile roman) else none)
  else none

/-- mirrors src/mapping/nemotron.cpp:702-706 -/
def kBullets : List Bytes := "-–—•►▪■□◦●○·*+".toList.map String.utf8EncodeChar

/-- A bullet, or a command in math, and what is behind it.
mirrors src/mapping/nemotron.cpp:702-722 -/
def bulletMarker (text : Bytes) : Option Bytes :=
  match kBullets.find? (·.isPrefixOf text) with
  | some bullet => some (text.drop bullet.length)
  | none =>
    let behind := (text.drop 3).dropWhile isAlpha
    if (ascii "\\(\\").isPrefixOf text && (text.drop 3).head?.any isAlpha &&
        (ascii "\\)").isPrefixOf behind then some (behind.drop 2)
    else none

/-- The marker, whether it is an ordered one, and the body.
mirrors src/mapping/nemotron.cpp:658-733 -/
def listMarker (text : Bytes) : Option (Bytes × Bool × Bytes) :=
  let inner := text.dropWhile isSpace
  match (orderedMarker inner).or (bulletMarker inner) with
  | none => none
  | some rest =>
    if rest.head?.any isSpace then
      some (inner.take (inner.length - rest.length), (orderedMarker inner).isSome,
        rest.dropWhile isSpace)
    else none

/-! ## Data tables -/

/-- Separator rows are dropped.
mirrors src/mapping/nemotron.cpp:386-409 -/
def markdownTableRows (lines : List Bytes) : List (List Bytes) :=
  (lines.filter fun line => !line.all (ascii "|-: ").contains).map fun line =>
    ((((trim line).dropWhile (· == 0x7C)).rdropWhile (· == 0x7C)).splitOn 0x7C).map trim

/-- mirrors src/mapping/nemotron.cpp:411-423 -/
def splitLines : Nat → Bytes → List Bytes
  | 0, _ => []
  | _ + 1, [] => []
  | n + 1, b :: text =>
    let inLine := fun c : UInt8 => c != 0x0D && c != 0x0A
    let rest := (b :: text).dropWhile inLine
    (b :: text).takeWhile inLine :: splitLines n
      (rest.drop (if [0x0D, 0x0A].isPrefixOf rest then 2 else 1))

def linesOf (text : Bytes) : List Bytes := splitLines text.length text

/-- As many turns as there are bytes find all lines. -/
theorem splitLines_enough {n m : Nat} {text : Bytes} (hn : text.length ≤ n) (hm : n ≤ m) :
    splitLines n text = splitLines m text := by
  induction n generalizing m text with
  | zero =>
    obtain rfl := List.length_eq_zero_iff.1 (Nat.le_zero.1 hn)
    cases m with
    | zero => rfl
    | succ m => rfl
  | succ n ih =>
    obtain ⟨m, rfl⟩ : ∃ k, m = k + 1 := ⟨m - 1, by omega⟩
    cases text with
    | nil => rfl
    | cons b text =>
      have hrest := ((b :: text).dropWhile_suffix fun c => c != 0x0D && c != 0x0A).length_le
      rw [splitLines, splitLines]
      congr 1
      refine ih ?_ (by omega)
      rw [List.length_drop]
      rw [List.length_cons] at hn hrest
      split
      · omega
      · omega

/-! ## Charts -/

/-- mirrors src/mapping/nemotron.cpp:425-449 -/
def chartLabel (type : Bytes) : Bytes :=
  let has := fun word : String => (findSub (ascii word) type).isSome
  if has "heatmap" then ascii "heatmap"
  else if has "stacked" && has "bar" then ascii "stacked_bar_chart"
  else if has "bar" then ascii "bar_chart"
  else if has "line" then ascii "line_chart"
  else if has "scatter" || has "bubble" then ascii "scatter_chart"
  else if has "pie" || has "donut" then ascii "pie_chart"
  else if has "box" then ascii "box_plot"
  else ascii "other_chart"

/-- `\s+type="([^"]*)"\s*>`: the type, and what is behind the tag.
mirrors src/mapping/nemotron.cpp:779-801 -/
def chartTag (text : Bytes) : Option (Bytes × Bytes) :=
  let inner := text.dropWhile isSpace
  if !text.head?.any isSpace || !(ascii "type=\"").isPrefixOf inner then none
  else
    match findByte 0x22 (inner.drop 6) with
    | none => none
    | some (type, quote) =>
      let behind := (quote.drop 1).dropWhile isSpace
      if behind.head? == some 0x3E then some (type, behind.drop 1) else none

/-- The first `<chart>` with a type. -/
def findChart : Bytes → Option (Bytes × Bytes)
  | [] => none
  | c :: rest =>
    ((if (ascii "<chart").isPrefixOf (c :: rest) then chartTag (rest.drop 5) else none)).or
      (findChart rest)

/-- mirrors src/mapping/nemotron.cpp:808-810 -/
structure Panel where
  id : Bytes
  type : Bytes
  label : Bytes
  deriving DecidableEq, Repr

/-- What the lines of a chart say; tables stand in the order they begin in.
mirrors src/mapping/nemotron.cpp:807-814 -/
structure ChartText where
  title : Bytes := []
  panels : List Panel := []
  tables : List (Bytes × List Bytes) := []
  key : Bytes := []

/-- Two cuts at most.
mirrors src/mapping/nemotron.cpp:830-841 -/
def panelParts (value : Bytes) : List Bytes :=
  match findByte 0x3B value with
  | none => [trim value]
  | some (id, first) =>
    match findByte 0x3B (first.drop 1) with
    | none => [trim id, trim (first.drop 1)]
    | some (type, second) => [trim id, trim type, trim (second.drop 1)]

/-- The key of `table[key]`.
mirrors src/mapping/nemotron.cpp:846-850 -/
def tableKey (name : Bytes) : Option Bytes :=
  let key := (name.drop 6).dropLast
  if (ascii "table[").isPrefixOf name && (ascii "]").isSuffixOf name && 7 < name.length &&
      key.all (fun c => isAlnum c || c == 0x5F) then some key
  else none

def addRow (key row : Bytes) : List (Bytes × List Bytes) → List (Bytes × List Bytes)
  | [] => [(key, [row])]
  | table :: tables =>
    if table.1 == key then (key, table.2 ++ [row]) :: tables else table :: addRow key row tables

/-- mirrors src/mapping/nemotron.cpp:815-852 -/
def ChartText.read (chart : ChartText) (line : Bytes) : ChartText :=
  let stripped := trim line
  if stripped.head? == some 0x7C then
    { chart with tables := addRow chart.key stripped chart.tables }
  else
    match findByte 0x3A stripped with
    | none => chart
    | some (name, colon) =>
      let value := colon.drop 1
      if name == ascii "title" then { chart with title := trim value }
      else if name == ascii "panel" then
        match panelParts value with
        | id :: type :: label =>
            { chart with panels := chart.panels ++ [⟨id, type, label.headD []⟩] }
        | _ => chart
      else { chart with key := (tableKey name).getD chart.key }

/-- A picture of a chart. -/
structure ChartPicture where
  type : Bytes
  title : Bytes
  rows : List Bytes

/-- A picture for each panel with a table; without any, one of the untitled
table or else the first.
mirrors src/mapping/nemotron.cpp:853-875 -/
def ChartText.pictures (chart : ChartText) (type : Bytes) : List ChartPicture :=
  let panels := chart.panels.filterMap fun panel =>
    if panel.id.isEmpty then none
    else (chart.tables.lookup panel.id).map fun rows => ⟨panel.type, panel.label, rows⟩
  let first := (chart.tables.map Prod.snd).headD []
  if panels.isEmpty then [⟨type, chart.title, (chart.tables.lookup []).getD first⟩] else panels

/-- mirrors src/mapping/nemotron.cpp:773-875 -/
def chartPictures (text : Bytes) : List ChartPicture :=
  let (type, body) := (findChart text).getD (ascii "other", text)
  let body := ((findSub (ascii "</chart>") body).map Prod.fst).getD body
  ((linesOf body).foldl ChartText.read {}).pictures type

end VlmConvert.L3.Nemotron

import VlmConvert.Core.Interrupt
import VlmConvert.L2Table.SpanTable
import VlmConvert.L3Document.AdjacentCaptions
import VlmConvert.L3Document.DeepseekEmit
import VlmConvert.L3Document.Doclang

/-!
# The Chandra builder

`ChandraBuilder` (`src/mapping/chandra.cpp`) walks the element tree of a
response and writes one page. Its state is the writer, the members `skip_img_`
and `skip_chem_`, and the thread's `t_skip_chem`, which outlives the mapping;
an exception may come at any point of the walk.

`Document` has no field for a picture's molecule and for the ref of a table
cell: both are kept beside it, by the index of their picture or table. The
number parser of `py_float` (`std::from_chars` on a `double`) is a parameter.
The walk's recursion runs on fuel; `Chandra.enough` shows that the height of the
tree is enough.
-/
namespace VlmConvert.L3.Chandra

open Bytes L1 L2 Doclang Interruptible

/-! ## Elements -/

/-- mirrors src/mapping/chandra.cpp:27-30 -/
def kBlockTags : List Bytes := kHtmlBlockTags

/-- mirrors src/mapping/chandra.cpp:32-34 -/
def isBlock (node : MarkupNode) : Bool := !node.isText && kBlockTags.contains node.tag

/-- mirrors src/mapping/chandra.cpp:36-38 -/
def isHeadingTag (tag : Bytes) : Bool :=
  match tag with
  | [h, digit] => h == 0x68 && 0x31 ≤ digit && digit ≤ 0x36
  | _ => false

mutual
/-- The elements below a node, in document order.
mirrors src/mapping/chandra.cpp:40-63 -/
def descendants : MarkupNode → List MarkupNode
  | .text _ => []
  | .element _ _ children => descendantsIn children
def descendantsIn : List MarkupNode → List MarkupNode
  | [] => []
  | .text _ :: rest => descendantsIn rest
  | .element tag attrs children :: rest =>
    .element tag attrs children :: descendants (.element tag attrs children) ++ descendantsIn rest
end

/-- mirrors src/mapping/chandra.cpp:72-89 -/
def layoutLabelOf (name : Bytes) : Option DocItemLabel :=
  [(ascii "Title", DocItemLabel.title), (ascii "Section-Header", .sectionHeader),
    (ascii "Caption", .caption), (ascii "Footnote", .footnote), (ascii "Page-Header", .pageHeader),
    (ascii "Page-Footer", .pageFooter), (ascii "Equation-Block", .formula),
    (ascii "Code-Block", .code), (ascii "Bibliography", .reference)].lookup name

/-- mirrors src/mapping/chandra.cpp:95-101 -/
def stripChars (text chars : Bytes) : Bytes :=
  (text.dropWhile chars.contains).rdropWhile chars.contains

/-- mirrors src/mapping/chandra.cpp:103-105 -/
def pyStrip (text : Bytes) : Bytes := stripChars text [0x20, 0x09, 0x0A, 0x0D, 0x0C, 0x0B]

/-- mirrors src/mapping/chandra.cpp:107-114 -/
def hasAlnum (text : Bytes) : Bool := text.any fun c => isAlpha c || isDigit c || 0x80 ≤ c

/-! ## Runs -/

/-- mirrors src/mapping/chandra.cpp:116-131 -/
structure Run where
  text : Bytes
  label : DocItemLabel := .text
  formatting : Formatting := {}
  hyperlink : Bytes := []
  deriving DecidableEq, Repr

namespace Run
variable (run : Run)

def plainFormatting : Bool := (formattingWire run.formatting).bytes.isEmpty

def plain : Bool := run.label == .text && run.plainFormatting && run.hyperlink.isEmpty

def sameStyle (other : Run) : Bool :=
  formattingWire run.formatting == formattingWire other.formatting &&
    run.hyperlink == other.hyperlink

end Run

/-- mirrors src/mapping/chandra.cpp:149-167 -/
def collapseRuns (text : Bytes) : Bytes :=
  let s := text.foldl (fun (s : Bytes × Bool) c =>
    if isSpace c then (s.1, true) else (s.1 ++ (if s.2 then [0x20, c] else [c]), false)) ([], false)
  if s.2 then s.1 ++ [0x20] else s.1

/-- The formatting an element's tag adds.
mirrors src/mapping/chandra.cpp:186-197 -/
def runFormatting (tag : Bytes) (formatting : Formatting) : Formatting :=
  if tag == ascii "b" || tag == ascii "strong" then { formatting with bold := true }
  else if tag == ascii "i" || tag == ascii "em" then { formatting with italic := true }
  else if tag == ascii "u" then { formatting with underline := true }
  else if tag == ascii "del" || tag == ascii "s" then { formatting with strikethrough := true }
  else if tag == ascii "sup" then { formatting with script := some .super }
  else if tag == ascii "sub" then { formatting with script := some .sub }
  else formatting

/-- mirrors src/mapping/chandra.cpp:201-217 -/
def inputRuns (node : MarkupNode) (formatting : Formatting) (hyperlink : Bytes) : List Run :=
  let kind := (node.attr (ascii "type") (ascii "text")).map toLower
  if kind == ascii "hidden" then []
  else if kind == ascii "checkbox" || kind == ascii "radio" then
    [{ text := []
       label := if node.hasAttr (ascii "checked") then .checkboxSelected else .checkboxUnselected
       formatting := formatting, hyperlink := hyperlink }]
  else
    [{ text := htmlText node, label := .fieldValue
       formatting := formatting, hyperlink := hyperlink }]

mutual
/-- `skipChem` is the thread's `t_skip_chem`.
mirrors src/mapping/chandra.cpp:173-240 -/
def inlineRuns (skipChem : Bool) (inherited : Formatting) (inheritedLink : Bytes) :
    MarkupNode → List Run
  | .text t => [{ text := collapseRuns t, formatting := inherited, hyperlink := inheritedLink }]
  | .element tag attrs children =>
    let node := MarkupNode.element tag attrs children
    let formatting := runFormatting tag inherited
    let href := node.attr (ascii "href") []
    let hyperlink := if tag == ascii "a" && !href.isEmpty then href else inheritedLink
    if tag == ascii "input" then inputRuns node formatting hyperlink
    else if tag == ascii "math" || tag == ascii "code" then
      [{ text := pyStrip (htmlText node), label := if tag == ascii "math" then .formula else .code
         formatting := formatting, hyperlink := hyperlink }]
    else if tag == ascii "br" then
      [{ text := [0x0A], formatting := formatting, hyperlink := hyperlink }]
    else if tag == ascii "script" || tag == ascii "style" || tag == ascii "head" ||
        (skipChem && tag == ascii "chem") then []
    else inlineRunsIn skipChem formatting hyperlink children
def inlineRunsIn (skipChem : Bool) (formatting : Formatting) (hyperlink : Bytes) :
    List MarkupNode → List Run
  | [] => []
  | child :: rest =>
    inlineRuns skipChem formatting hyperlink child ++
      inlineRunsIn skipChem formatting hyperlink rest
end

/-- Neighbouring text runs of one style are one run.
mirrors src/mapping/chandra.cpp:417-425 -/
def mergeRun (merged : List Run) (run : Run) : List Run :=
  match merged.getLast? with
  | none => merged ++ [run]
  | some last =>
    if run.label == .text && last.label == .text && run.sameStyle last then
      merged.dropLast ++ [{ last with text := last.text ++ run.text }]
    else merged ++ [run]

/-- The runs kept so far, and whether a line breaks before the next one.
mirrors src/mapping/chandra.cpp:430-451 -/
def keepRun (heading : Bool) (s : List Run × Bool) (run : Run) : List Run × Bool :=
  let edges := stripChars run.text [0x20, 0x09]
  let run := { run with text := pyStrip run.text }
  let isText := run.label == .text
  let lineBreak := s.2 || (isText && edges.head? == some 0x0A)
  if run.text.isEmpty && run.label != .fieldValue && run.label != .checkboxSelected &&
      run.label != .checkboxUnselected then (s.1, lineBreak)
  else
    let next := isText && edges.getLast? == some 0x0A
    match s.1.getLast? with
    | none => (s.1 ++ [run], next)
    | some last =>
      if lineBreak && !heading then
        if run.plain then (s.1 ++ [{ run with text := 0x0A :: run.text }], next)
        else if last.plain then
          (s.1.dropLast ++ [{ last with text := last.text ++ [0x0A] }, run], next)
        else (s.1 ++ [run], next)
      else (s.1 ++ [run], next)

/-- mirrors src/mapping/chandra.cpp:415-456 -/
def keptRuns (heading : Bool) (runs : List Run) : List Run :=
  let kept := ((runs.foldl mergeRun []).foldl (keepRun heading) ([], false)).1
  if heading && kept.length > 1 then
    kept.map fun run => { run with text := collapseWhitespace run.text }
  else kept

/-- Runs of mathematics are one formula; other runs make no formula.
mirrors src/mapping/chandra.cpp:465-484 -/
def joinFormula (kept : List Run) (label : DocItemLabel) : List Run × DocItemLabel :=
  if kept.length > 1 && label == .formula then
    if kept.all fun run => run.label == .formula || !hasAlnum run.text then
      let joined := kept.foldl (fun joined run =>
        (if joined.isEmpty then joined else joined ++ [0x20]) ++ pyStrip run.text) []
      ([{ text := joined, label := .formula }], label)
    else (kept, .text)
  else (kept, label)

/-! ## Boxes -/

/-- A block's box, handed to the first item that claims it.
mirrors src/mapping/chandra.cpp:133-147 -/
structure Provenance where
  box : Option BoundingBox
  textOwner : Bool := true
  claimed : Bool := false

/-- `prov != nullptr ? prov->take() : std::nullopt`, and the box's owner
afterwards. -/
def takeBox : Option Provenance → Option BoundingBox × Option Provenance
  | none => (none, none)
  | some prov =>
    if prov.box.isNone || prov.claimed then (none, some prov)
    else (prov.box, some { prov with claimed := true })

/-- mirrors src/mapping/chandra.cpp:411-413 -/
def textProv (prov : Option Provenance) : Option BoundingBox × Option Provenance :=
  if prov.any (·.textOwner) then takeBox prov else (none, prov)

/-- What a mapping has: the page, its raster, the size protobuf gives a table
cell, and `std::from_chars`. -/
structure Env where
  page : PageContext
  raster : PageRaster
  byteSizeLong : TableCell → Nat
  fromChars : Bytes → Option (Float × Bytes)

/-- mirrors src/mapping/chandra.cpp:242-252 -/
def pyFloat (env : Env) (piece : Bytes) : Option Float :=
  match env.fromChars (if piece.head? == some 0x2B then piece.drop 1 else piece) with
  | some (value, []) => some value
  | _ => none

/-- mirrors src/mapping/chandra.cpp:380-409 -/
def provenance (env : Env) (node : MarkupNode) : Option BoundingBox :=
  let pieces :=
    ((node.attr (ascii "data-bbox") []).splitOnP isSpace).filter fun piece => !piece.isEmpty
  match pieces.mapM (pyFloat env) with
  | some [x0, y0, x1, y1] =>
    if 0 ≤ x0 ∧ x0 ≤ x1 ∧ x1 ≤ 1000 ∧ 0 ≤ y0 ∧ y0 ≤ y1 ∧ y1 ≤ 1000 then
      some (Deepseek.gridBox env.page [x0, y0, x1, y1] 1000)
    else none
  | _ => none

/-! ## The state -/

/-- The writer, with what `Document` leaves out: the molecules of pictures and
the cells of tables with their refs. -/
structure ChandraWriter where
  writer : LayoutWriter
  molecules : List (Nat × Bytes) := []
  richTables : List (Nat × RichTable) := []

/-- `walked` tells the pictures whose content is being walked, innermost first,
and whether each holds exactly one `<chem>`; the program does not read it.
mirrors src/mapping/chandra.cpp:169-171, 744-748 -/
structure State where
  out : ChandraWriter
  skipImg : Bool := false
  skipChem : Bool := false
  tSkipChem : Bool
  walked : List Bool := []

abbrev Builder := Interruptible State

section Operations
variable (env : Env)

/-- An operation of the writer, and the item it makes. -/
def op (op : LayoutWriter.Op) : Builder (Option BodyChild) := do
  point
  let s ← state
  let r := LayoutWriter.apply env.page env.raster env.byteSizeLong s.out.writer op
  update fun s => { s with out := { s.out with writer := r.1 } }
  pure r.2

/-- A change of pictures and tables. -/
def edit (f : ChandraWriter → ChandraWriter) : Builder Unit := do
  point
  update fun s => { s with out := f s.out }

/-- `set_heading_level` on the text items from `before` on. -/
def setHeadingLevels (before : Nat) (level : Int) : Builder Unit := do
  let s ← state
  (List.range' before (s.out.writer.doc.texts.length - before)).foldlM (fun _ i => do
    let _ ← op env (.setHeadingLevel i level)
    pure ()) ()

/-- mirrors src/mapping/layout.cpp:775-788 -/
def describePicture (picture : Option BodyChild) (description : Bytes) (out : ChandraWriter) :
    ChandraWriter :=
  match picture with
  | none => out
  | some ref =>
    if description.isEmpty then out
    else { out with writer := { out.writer with doc := { out.writer.doc with
      pictures := out.writer.doc.pictures.modify ref.index fun item => { item with
        info := { item.info with description := some ⟨description, ascii "chandra"⟩ }
        annotations := item.annotations ++
          [.description (ascii "description") description (ascii "chandra")] } } } }

/-- A lone `<chem>` is the picture's molecule.
mirrors src/mapping/layout.cpp:805-818, src/mapping/chandra.cpp:709-711 -/
def setMolecule (picture : Option BodyChild) (chemicals : List MarkupNode) (out : ChandraWriter) :
    ChandraWriter :=
  match picture, chemicals with
  | some ref, [chem] =>
    let smiles := pyStrip (htmlText chem)
    if smiles.isEmpty then out else { out with molecules := out.molecules ++ [(ref.index, smiles)] }
  | _, _ => out

/-- mirrors src/mapping/chandra.cpp:626-630 -/
def fillTable (table : Option BodyChild) (cells : List SpanCell) (richRefs : List Bytes)
    (out : ChandraWriter) : ChandraWriter :=
  match table with
  | none => out
  | some ref =>
    let filled := fillSpanTable env.byteSizeLong cells
    { out with
      writer := { out.writer with
        doc := { out.writer.doc with
          tables := out.writer.doc.tables.modify ref.index fun item =>
            { item with data := some filled.1 } }
        warnings := noteTableCut filled.2 filled.1 (ascii "table")
          (bodyChildRef ref) out.writer.warnings }
      richTables := out.richTables ++ [(ref.index, attachRichRefs filled.1 cells richRefs)] }

/-! ## Emitting runs -/

/-- mirrors src/mapping/chandra.cpp:519-525 -/
def parentIsHeading (w : LayoutWriter) (parent : Option BodyChild) : Bool :=
  match parent with
  | some ref => ref.kind == .text &&
    (w.labelOf ref == some .sectionHeader || w.labelOf ref == some .title)
  | none => false

/-- A text item without text and children.
mirrors src/mapping/chandra.cpp:498-499 -/
def emptyText (w : LayoutWriter) (ref : BodyChild) : Bool :=
  ref.kind == .text && w.childCount ref == 0 && (w.doc.texts[ref.index]?.map itemText).getD [] == []

/-- mirrors src/mapping/chandra.cpp:461-464 -/
def layerOfLabel (label : DocItemLabel) : ContentLayer :=
  if label == .pageHeader || label == .pageFooter then .furniture else .body

/-- `set_content_layer` of an item just made. -/
def setLayer (item : Option BodyChild) (layer : ContentLayer) : Builder Unit :=
  match item with
  | some ref => do
    let _ ← op env (.setContentLayer ref layer)
    pure ()
  | none => pure ()

/-- The item over several runs, unless they are text.
mirrors src/mapping/chandra.cpp:486-489 -/
def outerItem (label : DocItemLabel) (layer : ContentLayer) (parent : Option BodyChild)
    (prov : Option Provenance) : Builder (Option BodyChild × Option Provenance) :=
  if label == .text then pure (parent, prov)
  else do
    let item ← op env (.styledText label (textProv prov).1 [] none [] parent)
    setLayer env item layer
    pure (item, (textProv prov).2)

/-- Several runs stand in an inline group.
mirrors src/mapping/chandra.cpp:485-492 -/
def groupRuns (kept : List Run) (label : DocItemLabel) (layer : ContentLayer)
    (parent : Option BodyChild) (prov : Option Provenance) :
    Builder (Option BodyChild × Option Provenance) :=
  if kept.length > 1 then do
    let outer ← outerItem env label layer parent prov
    let group ← op env (.inlineGroup outer.1)
    setLayer env group layer
    pure (group, outer.2)
  else pure (parent, prov)

/-- mirrors src/mapping/chandra.cpp:493-512 -/
def emitRun (alone : Bool) (label : DocItemLabel) (layer : ContentLayer) (parent : Option BodyChild)
    (prov : Option Provenance) (run : Run) : Builder (Option Provenance) := do
  let s ← state
  let runLabel := if run.label == .text && alone then label else run.label
  let formatting := if run.plainFormatting then none else some (formattingWire run.formatting)
  match parent.filter fun ref => emptyText s.out.writer ref && alone && runLabel == .text with
  | some ref => do
    let _ ← op env (.setText ref run.text formatting run.hyperlink)
    pure prov
  | none => do
    let box := if runLabel == label then textProv prov else (none, prov)
    let item ← op env (.styledText runLabel box.1 run.text formatting run.hyperlink parent)
    setLayer env item layer
    pure box.2

/-- mirrors src/mapping/chandra.cpp:415-517 -/
def emitRuns (runs : List Run) (parent : Option BodyChild) (prov : Option Provenance)
    (label : DocItemLabel) : Builder (Option Provenance) := do
  point
  let s ← state
  let heading := parentIsHeading s.out.writer parent || label == .sectionHeader || label == .title
  let kept := keptRuns heading runs
  if kept.isEmpty then pure prov
  else do
    let before := s.out.writer.doc.texts.length
    let joined := joinFormula kept label
    let outer ← groupRuns env joined.1 joined.2 (layerOfLabel label) parent prov
    let prov ← joined.1.foldlM
      (emitRun env (decide (joined.1.length = 1)) joined.2 (layerOfLabel label) outer.1) outer.2
    -- without <hN>, a section header has raw depth 2
    setHeadingLevels env before 2
    pure prov

/-! ## Lists -/

/-- mirrors src/mapping/chandra.cpp:530-539 -/
def listNumber (node : MarkupNode) : Nat :=
  let start := pyStrip (node.attr (ascii "start") (ascii "1"))
  match L2.fromChars (if start.head? == some 0x2B then start.drop 1 else start) with
  | some value => (min (max value 1) 2147483647).toNat
  | none => 1

/-- mirrors src/mapping/chandra.cpp:590 -/
def kWrapperTag : Bytes := ascii "#li"

def isBlankText : MarkupNode → Bool
  | .text t => (pyStrip t).isEmpty
  | .element .. => false

/-- The pending nodes as the content of one item.
mirrors src/mapping/chandra.cpp:546-552, 588-596 -/
def flushItem (pending : List MarkupNode) : List MarkupNode :=
  if pending.isEmpty then [] else [.element kWrapperTag [] pending]

/-- mirrors src/mapping/chandra.cpp:553-563 -/
def gatherItem (s : List MarkupNode × List MarkupNode) (child : MarkupNode) :
    List MarkupNode × List MarkupNode :=
  if !child.isText &&
    (child.tag == ascii "li" || child.tag == ascii "p" || child.tag == ascii "br") then
    (s.1 ++ flushItem s.2 ++ (if child.tag == ascii "br" then [] else [child]), [])
  else (s.1, s.2 ++ [child])

/-- mirrors src/mapping/chandra.cpp:540-574 -/
def listItems (node : MarkupNode) : List MarkupNode :=
  if node.tag == ascii "ul" || node.tag == ascii "ol" then node.children
  else
    let s := node.children.foldl gatherItem ([], [])
    if s.2.all isBlankText then s.1 else s.1 ++ flushItem s.2

/-- mirrors src/mapping/chandra.cpp:580-586, 597-603 -/
def itemContent (child : MarkupNode) : List MarkupNode :=
  if !child.isText &&
    (child.tag == ascii "li" || child.tag == ascii "p" || child.tag == kWrapperTag) then
    child.children
  else [child]

/-! ## Pictures and tables -/

/-- The node itself, or those below it, with the tag.
mirrors src/mapping/chandra.cpp:674-693 -/
def named (tag : Bytes) (node : MarkupNode) : List MarkupNode :=
  if node.tag == tag then [node] else (descendants node).filter fun n => n.tag == tag

/-- mirrors src/mapping/chandra.cpp:694-707 -/
def description (images : List MarkupNode) : Bytes :=
  let alts := ((images.map fun image => image.attr (ascii "alt") []).filter fun alt =>
    !alt.isEmpty).eraseDups
  alts.foldl (fun text alt => (if text.isEmpty then text else text ++ [0x0A]) ++ alt) []

/-- mirrors src/mapping/chandra.cpp:719-731 -/
def pictureContent (node : MarkupNode) : List MarkupNode :=
  node.children.filter fun child =>
    if child.isText then (named (ascii "img") node).isEmpty
    else !(child.tag == ascii "img" ||
      (child.tag == ascii "chem" && (named (ascii "chem") node).length == 1))

/-- The cells of a table with the elements they came from; as cells they are
those of `chandraTableCells` (`tableSources_cells`). -/
def tableSources (table : MarkupNode) : List (SpanCell × MarkupNode) :=
  (Placement.place pastGuard 0 (chandraBoxes table) ∅).map fun p =>
    (chandraCell p, p.box.value.node)

theorem tableSources_cells (table : MarkupNode) :
    (tableSources table).map Prod.fst = chandraTableCells table := by
  rw [tableSources, List.map_map, chandraTableCells_place]
  rfl

/-- mirrors src/mapping/chandra.cpp:631-637 -/
def isTableCaption (child : MarkupNode) : Bool :=
  !child.isText && (child.tag == ascii "caption" || child.tag == ascii "figcaption" ||
    child.attr (ascii "data-label") [] == ascii "Caption" ||
    child.attr (ascii "data-label") [] == ascii "Footnote")

/-- mirrors src/mapping/chandra.cpp:373-378 -/
def inlineNode (node : MarkupNode) : Bool :=
  !kBlockTags.contains node.tag && node.tag != ascii "img" && node.tag != ascii "chem" &&
    !node.hasAttr (ascii "data-label") && !node.hasAttr (ascii "data-bbox") &&
    !(node.tag == ascii "math" && node.attr (ascii "display") [] == ascii "block") &&
    !(descendants node).any isBlock

/-- mirrors src/mapping/chandra.cpp:332-341 -/
def linkCaptions (before : Nat) (label : DocItemLabel) (parent : Option BodyChild) :
    Builder Unit := do
  let s ← state
  match parent with
  | some owner =>
    if owner.kind == .picture || owner.kind == .table then
      (List.range' before (s.out.writer.doc.texts.length - before)).foldlM (fun _ i => do
        let s ← state
        if s.out.writer.labelOf ⟨.text, i⟩ == some label then do
          let _ ← op env (if label == .footnote then .linkFootnote owner ⟨.text, i⟩
            else .linkCaption owner ⟨.text, i⟩)
          pure ()
        else pure ()) ()
    else pure ()
  | none => pure ()

end Operations

end VlmConvert.L3.Chandra

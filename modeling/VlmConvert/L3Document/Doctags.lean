import VlmConvert.L3Document.Document
import VlmConvert.L2Table.Otsl

/-!
# The DocTags mapper

`map_doctags` (`src/mapping/doctags.cpp`): a tolerant tokenizer over the
model's response that flushes elements and hands raw group containers to
their emitters.

The tokenizer never reads the document it fills, so the model lists what it
emits (`emissions`: a flushed element, or a group container's raw chunk) and
then applies the emissions in order (`emit`). A position in the text is the
text from there on; `pos = text.size()` and `break` both leave nothing.
`std::stol` and `std::stoi` are `none` where they throw. The page raster is a
parameter (`PageRaster`), and so is `ByteSizeLong`.
-/
namespace VlmConvert.L3.Doctags

open Bytes L2

/-! ## Numbers -/

/-- `strtol` in base 10, within `[lo, hi]`; behind the digits anything may
follow. -/
def stoi (lo hi : Int) (text : Bytes) : Option Int :=
  let l := text.dropWhile isSpace
  let negative := l.head? == some 0x2D
  let digits := (if negative || l.head? == some 0x2B then l.drop 1 else l).takeWhile isDigit
  let value : Int := if negative then -(ofDigits digits : Int) else ofDigits digits
  if digits.isEmpty || decide (value < lo) || decide (hi < value) then none else some value

/-- `std::stol`: 64 bits. -/
def stol : Bytes → Option Int := stoi (-2 ^ 63) (2 ^ 63 - 1)

/-- `std::stoi`: 32 bits. -/
def stoi32 : Bytes → Option Int := stoi (-2 ^ 31) (2 ^ 31 - 1)

/-! ## Elements -/

/-- mirrors src/mapping/doctags.cpp:34-44 -/
structure Element where
  name : Bytes := []
  locs : List Int := []
  text : Bytes := []
  otsl : Bytes := []
  classTags : List Bytes := []
  hasCaption : Bool := false
  captionLocs : List Int := []
  captionText : Bytes := []
  deriving DecidableEq, Repr

/-- mirrors src/mapping/doctags.cpp:46-57 -/
def locsBox (locs : List Int) (page : PageContext) : BoundingBox :=
  match locs with
  | x1 :: y1 :: x2 :: y2 :: _ =>
    if page.width = 0 ∨ page.height = 0 then fullPageBox page
    else ⟨Float.ofInt x1 / 500 * page.width.toFloat, Float.ofInt y1 / 500 * page.height.toFloat,
      Float.ofInt x2 / 500 * page.width.toFloat, Float.ofInt y2 / 500 * page.height.toFloat⟩
  | _ => fullPageBox page

/-- mirrors src/mapping/doctags.cpp:81-83 -/
def isContainer (tag : Bytes) : Bool :=
  tag == ascii "picture" || tag == ascii "chart" || tag == ascii "table" || tag == ascii "otsl"

/-- mirrors src/mapping/doctags.cpp:87-90 -/
def isGroupContainer (tag : Bytes) : Bool :=
  tag == ascii "ordered_list" || tag == ascii "unordered_list" || tag == ascii "inline" ||
    tag == ascii "key_value_region"

/-! ## Reading a chunk -/

/-- The text from `rest`'s first `needle` up to a '>', and what is behind. -/
def nextTag (needle rest : Bytes) : Option (Bytes × Bytes) :=
  match findSub needle rest with
  | none => none
  | some (_, open_) =>
    match findByte 0x3E open_ with
    | none => none
    | some (tag, close) => some (tag, close.drop 1)

def firstLocsAux : Nat → List Int → Bytes → List Int
  | 0, locs, _ => locs
  | fuel + 1, locs, rest =>
    if locs.length ≥ 4 then locs
    else
      match nextTag (ascii "<loc_") rest with
      | none => locs
      | some (tag, rest) => firstLocsAux fuel (locs ++ (stol (tag.drop 5)).toList) rest

/-- mirrors src/mapping/doctags.cpp:95-115 -/
def firstLocs (chunk : Bytes) : List Int := firstLocsAux chunk.length [] chunk

/-- A chunk with the tags `drop` names taken out. -/
def stripTags (drop : Bytes → Bool) : Nat → Bytes → Bytes
  | 0, _ => []
  | fuel + 1, rest =>
    match findByte 0x3C rest with
    | none => rest
    | some (before, open_) =>
      match findByte 0x3E open_ with
      | none => rest
      | some (tag, close) =>
        before ++ (if drop (tag.drop 1) then [] else tag ++ [0x3E]) ++
          stripTags drop fuel (close.drop 1)

/-- mirrors src/mapping/doctags.cpp:133-136 -/
def isInnerTag : Bytes → Bool
  | [] => false
  | c :: token =>
    !((c == 0x5F && (c :: token).getLast? == some 0x5F) || (!isAlpha c && c != 0x2F))

/-- mirrors src/mapping/doctags.cpp:120-144 -/
def innerText (chunk : Bytes) : Bytes := trim (stripTags isInnerTag (chunk.length + 1) chunk)

/-- mirrors src/mapping/doctags.cpp:148-171 -/
def cleanCellText (content : Bytes) : Bytes :=
  trim (stripTags (fun token => (ascii "loc_").isPrefixOf token || (ascii "link_").isPrefixOf token)
    (content.length + 1) content)

def linkTargetsAux : Nat → Bytes → List Int
  | 0, _ => []
  | fuel + 1, rest =>
    match nextTag (ascii "<link_") rest with
    | none => []
    | some (tag, rest) => (stoi32 (tag.drop 6)).toList ++ linkTargetsAux fuel rest

/-- mirrors src/mapping/doctags.cpp:174-193 -/
def linkTargets (content : Bytes) : List Int := linkTargetsAux content.length content

/-! ## Tables of names -/

/-- mirrors src/mapping/doctags.cpp:199-241 -/
def kClassificationLabels : List (Bytes × Bytes) := [
  "logo", "photograph", "icon", "engineering_drawing", "line_chart", "bar_chart", "other",
  "table", "flow_chart", "screenshot_from_computer", "signature", "screenshot_from_manual",
  "geographical_map", "pie_chart", "page_thumbnail", "stamp", "music", "calendar", "qr_code",
  "bar_code", "full_page_image", "scatter_plot", "chemistry_structure", "topographical_map",
  "crossword_puzzle", "box_plot", "stacked_bar_chart", "scatter_chart", "heatmap",
  "natural_image", "remote_sensing", "screenshot", "chemistry_molecular_structure",
  "chemistry_markush_structure", "picture_group"].map (fun tag => (ascii tag, ascii tag)) ++
  [("line", "line_chart"), ("dot_line", "line_chart"), ("vbar_categorical", "bar_chart"),
    ("hbar_categorical", "bar_chart")].map fun label => (ascii label.1, ascii label.2)

/-- mirrors src/mapping/doctags.cpp:243-246 -/
def isClassificationTag (token : Bytes) : Bool := kClassificationLabels.any (·.1 == token)

/-- mirrors src/mapping/doctags.cpp:250-257 -/
def pickClassification (seen : List Bytes) : Bytes :=
  ((kClassificationLabels.find? fun label => seen.contains label.1).map (·.2)).getD []

def kLanguages : List (String × CodeLanguageLabel) := [
  ("Ada", .ada), ("Awk", .awk), ("Bash", .bash), ("bc", .bc), ("C", .c), ("C#", .cSharp),
  ("C++", .cPlusPlus), ("CMake", .cmake), ("COBOL", .cobol), ("CSS", .css), ("Ceylon", .ceylon),
  ("Clojure", .clojure), ("Crystal", .crystal), ("Cuda", .cuda), ("Cython", .cython), ("D", .d),
  ("Dart", .dart), ("dc", .dc), ("Dockerfile", .dockerfile), ("DocLang", .doclang),
  ("Elixir", .elixir), ("Erlang", .erlang), ("FORTRAN", .fortran), ("Forth", .forth),
  ("Go", .go), ("HTML", .html), ("Haskell", .haskell), ("Haxe", .haxe), ("Java", .java),
  ("JavaScript", .javascript), ("JSON", .json), ("Julia", .julia), ("Kotlin", .kotlin),
  ("Latex", .latex), ("Lisp", .lisp), ("Lua", .lua), ("Matlab", .matlab),
  ("MoonScript", .moonscript), ("Nim", .nim), ("OCaml", .ocaml), ("ObjectiveC", .objectivec),
  ("Octave", .octave), ("PHP", .php), ("Pascal", .pascal), ("Perl", .perl), ("Prolog", .prolog),
  ("Python", .python), ("Racket", .racket), ("Ruby", .ruby), ("Rust", .rust), ("SML", .sml),
  ("SQL", .sql), ("Scala", .scala), ("Scheme", .scheme), ("Swift", .swift), ("Tikz", .tikz),
  ("TypeScript", .typescript), ("VisualBasic", .visualbasic), ("XML", .xml), ("YAML", .yaml)]

/-- mirrors src/mapping/doctags.cpp:261-328 -/
def codeLanguageOf (raw : Bytes) : CodeLanguageLabel :=
  ((kLanguages.find? fun language => ascii language.1 == raw).map (·.2)).getD .unknown

/-! ## Emitting -/

/-- What the emitters fill beside the page's items: the children they order,
and the page's crops and warnings.
mirrors src/mapping/doctags.cpp:26-32 -/
structure EmitState where
  doc : Document := {}
  order : List BodyChild := []
  crops : CropState := {}
  warnings : Option (List PageWarning)

def kCreatedBy : Bytes := ascii "load_from_doctags"

/-- A text item, and its place in the order. -/
def EmitState.addText (s : EmitState) (item : BaseTextItem) : EmitState :=
  { s with doc := s.doc.addTexts item, order := s.order ++ [⟨.text, s.doc.texts.length⟩] }

section Emit
variable (page : PageContext) (raster : PageRaster) (byteSizeLong : TableCell → Nat)

/-- The item of an embedded caption. -/
def captionItem (element : Element) : BaseTextItem :=
  let text := trim element.captionText
  .text (fillTextBase page .caption
    (provWithCharspan page (locsBox element.captionLocs page) (charLength text)) text)

/-- The caption's refs: its index, when there is one.
mirrors src/mapping/doctags.cpp:333-345 -/
def emitCaption (s : EmitState) (element : Element) : EmitState × List Bytes :=
  if element.hasCaption then
    (s.addText (captionItem page element), [bodyChildRef ⟨.text, s.doc.texts.length⟩])
  else (s, [])

/-- The description, classification and chart data of a picture, and the
cut of its chart data.
mirrors src/mapping/doctags.cpp:365-410 -/
def pictureInfo (element : Element) :
    PictureMeta × List PictureAnnotation × Option (TableCut × TableData) :=
  let description := trim element.text
  let classification := pickClassification element.classTags
  let chart := if element.name == ascii "chart" && !element.otsl.isEmpty then
      parseOtslGrid byteSizeLong element.otsl else none
  let title := if classification.isEmpty then ascii "other" else classification
  ({ description := if description.isEmpty then none else some ⟨description, kCreatedBy⟩
     classification := if classification.isEmpty then [] else [⟨classification, kCreatedBy⟩]
     tabularChart := chart.map fun chart => (title, chart.1) },
    (if description.isEmpty then
      [] else [.description (ascii "description") description kCreatedBy]) ++
    (if classification.isEmpty then []
      else [.classification (ascii "classification") kCreatedBy [classification]]) ++
    (chart.map fun chart => .tabularChart (ascii "tabular_chart_data") title chart.1).toList,
    chart.map fun chart => (chart.2, chart.1))

/-- mirrors src/mapping/doctags.cpp:352-435 -/
def emitPicture (s : EmitState) (element : Element) : EmitState :=
  let box := locsBox element.locs page
  let (s, captions) := emitCaption page s element
  let ref : BodyChild := ⟨.picture, s.doc.pictures.length⟩
  let info := pictureInfo byteSizeLong element
  let crop := if !page.png.isEmpty && decide (element.locs.length ≥ 4) then
      cropPicture raster s.crops box else (none, s.crops)
  { s with
    doc := s.doc.addPictures { newPicture page (provWithCharspan page box 0) with
      captions := captions, info := info.1, annotations := info.2.1, image := crop.1 }
    order := s.order ++ [ref]
    crops := crop.2
    warnings := match info.2.2 with
      | some (cut, data) => noteTableCut cut data (ascii "chart data") (bodyChildRef ref) s.warnings
      | none => s.warnings }

/-- The table an element's OTSL holds; a body without a row leaves it empty.
mirrors src/mapping/doctags.cpp:505-513 -/
def tableData (element : Element) : Option (TableData × TableCut) :=
  let body := if element.name == ascii "otsl" && element.otsl.isEmpty then trim element.text
    else element.otsl
  if body.isEmpty then none
  else some ((parseOtslGrid byteSizeLong body).getD (⟨0, 0, [], []⟩, ⟨0, 0, false, false⟩))

/-- mirrors src/mapping/doctags.cpp:495-514 -/
def emitTable (s : EmitState) (element : Element) : EmitState :=
  let (s, captions) := emitCaption page s element
  let ref : BodyChild := ⟨.table, s.doc.tables.length⟩
  let filled := tableData byteSizeLong element
  { s with
    doc := s.doc.addTables { newTable page
      (provWithCharspan page (locsBox element.locs page) 0) with
      captions := captions, data := filled.map (·.1) }
    order := s.order ++ [ref]
    warnings := match filled with
      | some (data, cut) => noteTableCut cut data (ascii "table") (bodyChildRef ref) s.warnings
      | none => s.warnings }

/-- A leading `<_language_>` token, and the code behind it. -/
def splitLanguage (text : Bytes) : Bytes × CodeLanguageLabel × Bytes :=
  if (ascii "<_").isPrefixOf text then
    match findSub (ascii "_>") (text.drop 2) with
    | some (raw, behind) => (raw, codeLanguageOf raw, behind.drop 2)
    | none => ([], .unknown, text)
  else ([], .unknown, text)

/-- mirrors src/mapping/doctags.cpp:469-488 -/
def codeItem (prov : ProvenanceItem) (text : Bytes) : BaseTextItem :=
  let (languageRaw, language, body) := splitLanguage text
  .code {
    contentLayer := .body
    label := .code
    prov := [prov]
    orig := body
    text := body
    source := addSources page
    captions := []
    footnotes := []
    codeLanguage := some language
    codeLanguageRaw := if languageRaw.isEmpty then none else some languageRaw }

def headerLevel (tag : Bytes) : Int := ((stoi32 (tag.drop 21)).map (max 1)).getD 1

def furniture (base : TextItemBase) : TextItemBase := { base with contentLayer := .furniture }

/-- The text item of an element that is no picture and no table; `none` when
an unknown tag carries nothing.
mirrors src/mapping/doctags.cpp:453-550 -/
def textItem (tag otsl : Bytes) (prov : ProvenanceItem) (text : Bytes) : Option BaseTextItem :=
  if tag == ascii "title" then some (.title (fillTextBase page .title prov text))
  else if (ascii "section_header_level_").isPrefixOf tag then
    some (.sectionHeader (fillTextBase page .sectionHeader prov text) (headerLevel tag))
  else if (ascii "subtitle-level_").isPrefixOf tag then
    some (.sectionHeader (fillTextBase page .sectionHeader prov text) 1)
  else if tag == ascii "list_item" then
    some (.listItem (fillTextBase page .listItem prov text) false none)
  else if tag == ascii "code" then some (codeItem page prov text)
  else if tag == ascii "formula" then some (.formula (fillTextBase page .formula prov text))
  else if tag == ascii "page_header" then
    some (.text (furniture (fillTextBase page .pageHeader prov text)))
  else if tag == ascii "page_footer" then
    some (.text (furniture (fillTextBase page .pageFooter prov text)))
  else if tag == ascii "footnote" then some (.text (fillTextBase page .footnote prov text))
  else if tag == ascii "caption" then some (.text (fillTextBase page .caption prov text))
  else if tag == ascii "checkbox_selected" then
    some (.text (fillTextBase page .checkboxSelected prov text))
  else if tag == ascii "checkbox_unselected" then
    some (.text (fillTextBase page .checkboxUnselected prov text))
  else if tag == ascii "document_index" then
    some (.text (fillTextBase page .documentIndex prov text))
  else if tag == ascii "text" || tag == ascii "paragraph" then
    some (.text (fillTextBase page .text prov text))
  else if text.isEmpty && otsl.isEmpty then none
  else some (.text { fillTextBase page .text prov text with labelRaw := some tag })

/-- Whether anything was emitted; `forcedBox` stands in for the element's own
locations.
mirrors src/mapping/doctags.cpp:441-552 -/
def emitElement (s : EmitState) (element : Element) (forcedBox : Option BoundingBox) :
    EmitState × Bool :=
  let text := trim element.text
  let prov := provWithCharspan page (forcedBox.getD (locsBox element.locs page)) (charLength text)
  let tag := element.name
  if tag == ascii "picture" || tag == ascii "chart" then
    (emitPicture page raster byteSizeLong s element, true)
  else if tag == ascii "table" || tag == ascii "otsl" then
    (emitTable page byteSizeLong s element, true)
  else
    match textItem page tag element.otsl prov text with
    | some item => (s.addText item, true)
    | none => (s, false)

/-! ### Key-value regions -/

/-- What stands behind the first '>'. -/
def behindOpen (chunk : Bytes) : Bytes :=
  match findByte 0x3E chunk with
  | some (_, close) => close.drop 1
  | none => chunk

/-- The next `<key_` or `<value_`, and what stands from its number on. -/
def nextCell (rest : Bytes) : Option (GraphCellLabel × Bytes) :=
  match findSub (ascii "<key_") rest, findSub (ascii "<value_") rest with
  | some (beforeKey, key), some (beforeValue, value) =>
    if beforeKey.length < beforeValue.length then some (.key, key.drop 5)
    else some (.value, value.drop 7)
  | some (_, key), none => some (.key, key.drop 5)
  | none, some (_, value) => some (.value, value.drop 7)
  | none, none => none

def closeCell (label : GraphCellLabel) (cellId : Int) : Bytes :=
  (match label with
    | .key => ascii "</key_"
    | .value => ascii "</value_") ++ decimalInt cellId ++ ascii ">"

/-- The cells, and the links they ask for.
mirrors src/mapping/doctags.cpp:581-640 -/
def regionCells : Nat → Bytes → List (GraphCell × List Int)
  | 0, _ => []
  | fuel + 1, rest =>
    match nextCell rest with
    | none => []
    | some (label, id) =>
      match findByte 0x3E id with
      | none => []
      | some (number, close) =>
        let behind := close.drop 1
        match stoi32 number with
        | none => regionCells fuel behind
        | some cellId =>
          match findSub (closeCell label cellId) behind with
          | none => regionCells fuel behind
          | some (content, end_) =>
            let text := cleanCellText content
            let locs := firstLocs content
            (⟨label, cellId, text, text, if locs.length = 4 then
                some (provWithCharspan page (locsBox locs page) 0) else none⟩,
                  linkTargets content) ::
              regionCells fuel (end_.drop (closeCell label cellId).length)

/-- mirrors src/mapping/doctags.cpp:559-653 -/
def emitKeyValueRegion (s : EmitState) (chunk : Bytes) : EmitState :=
  let head := behindOpen chunk
  let locs := match findSub (ascii "<key_") head with
    | some (before, _) => firstLocs before
    | none => []
  let cells := regionCells page head.length head
  let ids := cells.map (·.1.cellId)
  let links := cells.flatMap fun cell => (cell.2.filter ids.contains).map fun target =>
    GraphLink.mk cell.1.cellId target
  { s with
    doc := s.doc.addKeyValueItems {
      label := .keyValueRegion
      contentLayer := .body
      source := addSources page
      prov := if locs.length = 4 then [provWithCharspan page (locsBox locs page) 0] else []
      cells := cells.map (·.1)
      links := links }
    order := s.order ++ [⟨.keyValue, s.doc.keyValueItems.length⟩] }

/-! ### Groups -/

/-- Parents an emitted item to a group. -/
def adopt (group : BodyChild) (doc : Document) (child : BodyChild) : Document :=
  addItemChild (stampItem doc child (bodyChildRef group)) group (bodyChildRef child)

/-- The contents of the `<list_item>`s of a chunk. -/
def listItems : Nat → Bytes → List Bytes
  | 0, _ => []
  | fuel + 1, rest =>
    match findSub (ascii "<list_item>") rest with
    | none => []
    | some (_, open_) =>
      match findSub (ascii "</list_item>") (open_.drop 11) with
      | none => []
      | some (content, end_) => content :: listItems fuel (end_.drop 12)

/-- One item of a list group.
mirrors src/mapping/doctags.cpp:685-702 -/
def emitListItem (ordered : Bool) (group : BodyChild) (doc : Document) (item : Bytes × Nat) :
    Document :=
  let text := innerText item.1
  let marker := if ordered then decimal (item.2 + 1) ++ ascii "." else []
  let prov := provWithCharspan page (locsBox (firstLocs item.1) page) (charLength text)
  adopt group (addListItem doc page prov text ordered marker) ⟨.text, doc.texts.length⟩

/-- mirrors src/mapping/doctags.cpp:660-706 -/
def emitListGroup (s : EmitState) (chunk : Bytes) (ordered : Bool) : EmitState :=
  let group : BodyChild := ⟨.group, s.doc.groups.length⟩
  let doc := s.doc.addGroups { name := some (ascii "list"), label := .list, contentLayer := .body }
  { s with
    doc := (listItems chunk.length chunk).zipIdx.foldl (emitListItem page ordered group) doc
    order := s.order ++ [group] }

/-- What stands before the last `needle`. -/
def beforeLast (needle : Bytes) : Bytes → Option Bytes
  | [] => none
  | b :: rest =>
    match beforeLast needle rest with
    | some before => some (b :: before)
    | none => if needle.isPrefixOf (b :: rest) then some [] else none

/-- A '<' that can open a tag has a letter, '/' or '_' behind it.
mirrors src/mapping/doctags.cpp:731-735, 835-838 -/
def opensTag : Bytes → Bool
  | _ :: c :: _ => isAlpha c || c == 0x2F || c == 0x5F
  | _ => false

/-- The children of an inline group: a tag with its close tag.
mirrors src/mapping/doctags.cpp:724-758 -/
def inlineChildren : Nat → Bytes → List Element
  | 0, _ => []
  | fuel + 1, rest =>
    match findByte 0x3C rest with
    | none => []
    | some (_, open_) =>
      if !opensTag open_ then inlineChildren fuel (open_.drop 1)
      else
        match findByte 0x3E open_ with
        | none => []
        | some (tag, close) =>
          let token := tag.drop 1
          let behind := close.drop 1
          if token.isEmpty || token.head? == some 0x2F || token.head? == some 0x5F ||
              (ascii "loc_").isPrefixOf token then inlineChildren fuel behind
          else
            let closeTag := ascii "</" ++ token ++ ascii ">"
            match findSub closeTag behind with
            | none => inlineChildren fuel behind
            | some (content, end_) =>
              { name := token, text := innerText (tag ++ [0x3E] ++ content ++ closeTag) } ::
                inlineChildren fuel (end_.drop closeTag.length)

/-- One child of an inline group: what it emits goes under the group.
mirrors src/mapping/doctags.cpp:758-782 -/
def emitInlineChild (box : BoundingBox) (group : BodyChild) (s : EmitState) (child : Element) :
    EmitState :=
  let r := emitElement page raster byteSizeLong { s with order := [] } child (some box)
  { r.1 with doc := r.1.order.foldl (adopt group) r.1.doc, order := s.order }

/-- mirrors src/mapping/doctags.cpp:710-786 -/
def emitInlineGroup (s : EmitState) (chunk : Bytes) : EmitState :=
  let group : BodyChild := ⟨.group, s.doc.groups.length⟩
  let doc := s.doc.addGroups
    { name := some (ascii "group"), label := .inline_, contentLayer := .body }
  let content := (beforeLast (ascii "</inline>") (behindOpen chunk)).getD (behindOpen chunk)
  let locs := firstLocs content
  let box := if locs.length = 4 then locsBox locs page else fullPageBox page
  (inlineChildren content.length content).foldl (emitInlineChild page raster byteSizeLong box group)
    { s with doc := doc, order := s.order ++ [group] }

end Emit

/-! ## The tokenizer -/

/-- What the tokenizer emits. -/
inductive Emission
  | element (element : Element)
  | container (token chunk : Bytes)
  deriving DecidableEq, Repr

/-- The tokenizer's variables.
mirrors src/mapping/doctags.cpp:787-795 -/
structure Scan where
  current : Element := {}
  elementOpen : Bool := false
  inOtsl : Bool := false
  inCaption : Bool := false
  pendingLocs : List Int := []
  deriving DecidableEq, Repr

namespace Scan

/-- Character data goes to the caption or the element that is open. -/
def addText (s : Scan) (text : Bytes) : Scan :=
  if !s.elementOpen then s
  else if s.inCaption then
    { s with current := { s.current with captionText := s.current.captionText ++ text } }
  else { s with current := { s.current with text := s.current.text ++ text } }

/-- mirrors src/mapping/doctags.cpp:846-855 -/
def addLoc (s : Scan) (loc : Option Int) : Scan :=
  if s.inCaption then
    { s with current := { s.current with captionLocs := s.current.captionLocs ++ loc.toList } }
  else if s.elementOpen then
    { s with current := { s.current with locs := s.current.locs ++ loc.toList } }
  else { s with pendingLocs := s.pendingLocs ++ loc.toList }

def flushed (s : Scan) : List Emission := if s.elementOpen then [.element s.current] else []

/-- mirrors src/mapping/doctags.cpp:797-805 -/
def flush (s : Scan) : Scan := { s with
  current := {}, elementOpen := false, inCaption := false, pendingLocs := [] }

/-- `flush`, then a new element that takes the pending locations.
mirrors src/mapping/doctags.cpp:931-936 -/
def openElement (s : Scan) (name : Bytes) : Scan :=
  { flush s with current := { name := name, locs := (flush s).pendingLocs }, elementOpen := true }

/-- `<otsl>`, inside an element or on its own.
mirrors src/mapping/doctags.cpp:880-889 -/
def openOtsl (s : Scan) : Scan :=
  if s.elementOpen then { s with inOtsl := true }
  else { s with
    inOtsl := true, elementOpen := true, pendingLocs := []
    current := { s.current with name := ascii "otsl", locs := s.pendingLocs } }

/-- A group container: the raw chunk up to its close tag, or to the end. -/
def container (s : Scan) (token open_ behind : Bytes) : Scan × List Emission × Bytes :=
  let closeTag := ascii "</" ++ token ++ ascii ">"
  match findSub closeTag behind with
  | some (content, end_) =>
    (flush s, flushed s ++
      [.container token (ascii "<" ++ token ++ ascii ">" ++ content ++ closeTag)],
      end_.drop closeTag.length)
  | none => (flush s, flushed s ++ [.container token open_], [])

/-- A tag `<token>` at `open_`, with `behind` behind it.
mirrors src/mapping/doctags.cpp:843-936 -/
def tag (s : Scan) (token open_ behind : Bytes) : Scan × List Emission × Bytes :=
  if (ascii "loc_").isPrefixOf token then (s.addLoc (stol (token.drop 4)), [], behind)
  else if token == ascii "doctag" || token == ascii "/doctag" then (s, [], behind)
  else if token.head? == some 0x5F then
    (s.addText (ascii "<" ++ token ++ ascii ">"), [], behind)
  else if s.inCaption then
    ({ s with inCaption := s.inCaption && token != ascii "/caption" }, [], behind)
  else if token == ascii "caption" && s.elementOpen && isContainer s.current.name then
    ({ s with inCaption := true, current := { s.current with hasCaption := true } }, [], behind)
  else if token == ascii "otsl" then (s.openOtsl, [], behind)
  else if isGroupContainer token then s.container token open_ behind
  else if s.elementOpen && isContainer s.current.name && token == 0x2F :: s.current.name then
    (s.flush, s.flushed, behind)
  else if s.elementOpen && (s.current.name == ascii "picture" || s.current.name == ascii "chart") &&
      isClassificationTag token then
    ({ s with current := { s.current with classTags := s.current.classTags ++ [token] } },
    [], behind)
  else if token.head? == some 0x2F then
    if s.elementOpen && token == 0x2F :: s.current.name then (s.flush, s.flushed, behind)
    else (s, [], behind)
  else (s.openElement token, s.flushed, behind)

/-- One turn of the loop: the state, what it emits, and the text left.
mirrors src/mapping/doctags.cpp:807-937 -/
def step (s : Scan) (rest : Bytes) : Scan × List Emission × Bytes :=
  if s.inOtsl then
    match findSub (ascii "</otsl>") rest with
    | some (body, end_) =>
      ({ s with inOtsl := false, current := { s.current with otsl := s.current.otsl ++ body } }, [],
        end_.drop 7)
    | none =>
      ({ s with inOtsl := false, current := { s.current with otsl := s.current.otsl ++ rest } }, [],
      [])
  else
    match findByte 0x3C rest with
    | none => (s.addText rest, [], [])
    | some (before, open_) =>
      if !opensTag open_ then (s.addText (before ++ [0x3C]), [], open_.drop 1)
      else
        match findByte 0x3E open_ with
        | none => (s.addText before, [], [])
        | some (tag_, close) => (s.addText before).tag (tag_.drop 1) open_ (close.drop 1)

/-- The emissions from a state on, the last flush included. -/
def loop : Nat → Scan → Bytes → List Emission
  | 0, s, _ => s.flushed
  | _ + 1, s, [] => s.flushed
  | fuel + 1, s, b :: rest =>
    let r := s.step (b :: rest)
    r.2.1 ++ loop fuel r.1 r.2.2

/-- mirrors src/mapping/doctags.cpp:787-938 -/
def emissions (text : Bytes) : List Emission := loop text.length {} text

end Scan

/-! ## The mapper -/

/-- The page so far and the number of things emitted. -/
structure MapState extends EmitState where
  items : Nat := 0

section Map
variable (page : PageContext) (raster : PageRaster) (byteSizeLong : TableCell → Nat)

/-- mirrors src/mapping/doctags.cpp:798-800, 901-913 -/
def emit (s : MapState) : Emission → MapState
  | .element element =>
    let r := emitElement page raster byteSizeLong s.toEmitState element none
    ⟨r.1, if r.2 then s.items + 1 else s.items⟩
  | .container token chunk =>
    if token == ascii "key_value_region" then
      ⟨emitKeyValueRegion page s.toEmitState chunk, s.items + 1⟩
    else if token == ascii "inline" then
      ⟨emitInlineGroup page raster byteSizeLong s.toEmitState chunk, s.items + 1⟩
    else ⟨emitListGroup page s.toEmitState chunk (token == ascii "ordered_list"), s.items + 1⟩

def emitAll (s : MapState) (emissions : List Emission) : MapState :=
  emissions.foldl (emit page raster byteSizeLong) s

/-- On an empty document.
mirrors src/mapping/doctags.cpp:780-972 -/
def mapDoctags (warnings : Option (List PageWarning)) (text : Bytes) :
    Except Bytes (Document × Option (List PageWarning)) :=
  if 0x3C ∉ text then .error (ascii "response holds no DocTags markup")
  else
    let s := emitAll page raster byteSizeLong { warnings := warnings } (Scan.emissions text)
    if s.items = 0 then .error (ascii "DocTags response produced no document items")
    else .ok (finalizeDocument s.doc page s.order, cropWarnings page raster s.crops s.warnings)

end Map

end VlmConvert.L3.Doctags

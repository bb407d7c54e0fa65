import VlmConvert.Core.Forest
import VlmConvert.L2Table.Table

/-!
# The Document fragment

The page fragment every mapper fills: six item lists, a body group, and the
references between them (`self_ref`, `parent`, `children`). Items go through
the adders of `src/mapping/builder.h`; `finalizeDocument` stamps the items
under the body.

Every item kind has the three reference fields (`Node`); a text item has them
in the base of its variant, except that `CodeItem` has them inlined. Messages
the mappers only copy (sources, formatting, images, alternatives) are kept as
their wire bytes; a text item without a variant is never made and is left
out. Coordinates are `Float`, the source's `double`.

Results: `stamp_node` and `addChild_childrenOf`, what stamping an item and
adding a child reference change, and `RefTree.of_represents`, that a document
whose references represent a forest is a reference tree.
-/
namespace VlmConvert.L3

open Bytes L2

/-! ## Item kinds and references -/

/-- mirrors src/mapping/builder.h:330-334 -/
inductive BodyChild.Kind
  | text | picture | table | keyValue | group | fieldRegion
  deriving DecidableEq, Repr

/-- An item list and an index into it. -/
structure BodyChild where
  kind : BodyChild.Kind
  index : Nat
  deriving DecidableEq, Repr

def BodyChild.Kind.list : BodyChild.Kind → Bytes
  | .text => ascii "texts"
  | .picture => ascii "pictures"
  | .table => ascii "tables"
  | .keyValue => ascii "key_value_items"
  | .group => ascii "groups"
  | .fieldRegion => ascii "field_regions"

/-- mirrors src/mapping/builder.h:336-359 -/
def bodyChildRef (child : BodyChild) : Bytes :=
  ascii "#/" ++ child.kind.list ++ ascii "/" ++ decimal child.index

def bodyRef : Bytes := ascii "#/body"

/-- The reference to a parent: an item, or the body. -/
def parentRef : Option BodyChild → Bytes
  | none => bodyRef
  | some parent => bodyChildRef parent

theorem bodyChildRef_injective : Function.Injective bodyChildRef := by
  rintro ⟨k, i⟩ ⟨k', i'⟩ h
  have hkind : k = k' := by
    cases k <;> cases k' <;> first | rfl | simp [bodyChildRef, BodyChild.Kind.list, ascii] at h
  subst hkind
  simp only [bodyChildRef, List.append_cancel_left_eq] at h
  rw [decimal_injective h]

theorem bodyChildRef_ne_body (child : BodyChild) : bodyChildRef child ≠ bodyRef := by
  obtain ⟨k, i⟩ := child
  cases k <;> simp [bodyChildRef, bodyRef, BodyChild.Kind.list, ascii]

theorem parentRef_injective : Function.Injective parentRef := by
  intro p q h
  cases p with
  | none =>
    cases q with
    | none => rfl
    | some q => exact absurd h.symm (bodyChildRef_ne_body q)
  | some p =>
    cases q with
    | none => exact absurd h (bodyChildRef_ne_body p)
    | some q => exact congrArg some (bodyChildRef_injective h)

/-! ## Messages -/

/-- mirrors proto/ai/pipestream/document/v1/document.proto (`DocItemLabel`) -/
inductive DocItemLabel
  | unspecified | caption | chart | checkboxSelected | checkboxUnselected | code | documentIndex
  | emptyValue | footnote | form | formula | gradingScale | handwrittenText | keyValueRegion
  | listItem | pageFooter | pageHeader | paragraph | picture | reference | sectionHeader | table
  | text | title | fieldRegion | fieldHeading | fieldItem | fieldKey | fieldValue | fieldHint
  | marker | seal | aside | algorithm
  deriving DecidableEq, Repr

inductive ContentLayer
  | unspecified | body | furniture | background | invisible | notes
  deriving DecidableEq, Repr

inductive GroupLabel
  | unspecified | list | orderedList | chapter | section_ | sheet | slide | formArea | keyValueArea
  | commentSection | inline_ | pictureArea
  deriving DecidableEq, Repr

inductive CodeLanguageLabel
  | unspecified | ada | awk | bash | bc | c | cSharp | cPlusPlus | cmake | cobol | css | ceylon
  | clojure | crystal | cuda | cython | d | dart | dc | dockerfile | elixir | erlang | fortran
  | forth | go | html | haskell | haxe | java | javascript | json | julia | kotlin | lisp | lua
  | matlab | moonscript | nim | ocaml | objectivec | octave | php | pascal | perl | prolog | python
  | racket | ruby | rust | sml | sql | scala | scheme | swift | typescript | unknown | visualbasic
  | xml | yaml | latex | tikz | doclang
  deriving DecidableEq, Repr

/-- A message the mappers copy and never look into. -/
structure Wire where
  bytes : Bytes
  deriving DecidableEq, Repr

inductive SourceType
  | collector (source : Wire)
  | generation (source : Wire)
  deriving DecidableEq, Repr

/-- `COORD_ORIGIN_TOPLEFT`, the only origin the mappers set. -/
structure BoundingBox where
  l : Float
  t : Float
  r : Float
  b : Float

structure ProvenanceItem where
  pageNo : Int32
  bbox : BoundingBox
  charspan : Option (Nat × Nat)

/-- The reference fields of an item. -/
structure Node where
  selfRef : Bytes := []
  parent : Option Bytes := none
  children : List Bytes := []
  deriving DecidableEq, Repr

structure TextItemBase extends Node where
  contentLayer : ContentLayer
  label : DocItemLabel
  labelRaw : Option Bytes
  prov : List ProvenanceItem
  orig : Bytes
  text : Bytes
  formatting : Option Wire
  hyperlink : Option Bytes
  source : List SourceType

structure CodeItem extends Node where
  contentLayer : ContentLayer
  label : DocItemLabel
  prov : List ProvenanceItem
  orig : Bytes
  text : Bytes
  source : List SourceType
  captions : List Bytes
  footnotes : List Bytes
  codeLanguage : Option CodeLanguageLabel
  codeLanguageRaw : Option Bytes

inductive BaseTextItem
  | title (base : TextItemBase)
  | sectionHeader (base : TextItemBase) (level : Int)
  | listItem (base : TextItemBase) (enumerated : Bool) (marker : Option Bytes)
  | code (item : CodeItem)
  | formula (base : TextItemBase)
  | text (base : TextItemBase)
  | fieldHeading (base : TextItemBase)
  | fieldValue (base : TextItemBase) (kind : Bytes)

inductive PictureAnnotation
  | description (kind text provenance : Bytes)
  | classification (kind provenance : Bytes) (predictedClasses : List Bytes)
  | tabularChart (kind title : Bytes) (chartData : TableData)

/-- A text and who made it. -/
structure MetaField where
  text : Bytes
  createdBy : Bytes

structure PictureMeta where
  description : Option MetaField := none
  classification : List MetaField := []
  tabularChart : Option (Bytes × TableData) := none
  chartCreatedBy : Bytes := []

structure PictureItem extends Node where
  contentLayer : ContentLayer
  label : DocItemLabel
  prov : List ProvenanceItem
  source : List SourceType
  captions : List Bytes := []
  footnotes : List Bytes := []
  image : Option Wire := none
  info : PictureMeta := {}
  annotations : List PictureAnnotation := []

structure TableItem extends Node where
  contentLayer : ContentLayer
  label : DocItemLabel
  prov : List ProvenanceItem
  source : List SourceType
  captions : List Bytes := []
  footnotes : List Bytes := []
  data : Option TableData := none

structure GroupItem extends Node where
  name : Option Bytes := none
  label : GroupLabel := .unspecified
  contentLayer : ContentLayer := .unspecified
  alternatives : Option Wire := none

inductive GraphCellLabel
  | key | value
  deriving DecidableEq, Repr

structure GraphCell where
  label : GraphCellLabel
  cellId : Int
  text : Bytes
  orig : Bytes
  prov : Option ProvenanceItem

/-- A `TO_VALUE` link. -/
structure GraphLink where
  sourceCellId : Int
  targetCellId : Int
  deriving DecidableEq, Repr

structure KeyValueItem extends Node where
  contentLayer : ContentLayer
  label : DocItemLabel
  prov : List ProvenanceItem
  source : List SourceType
  cells : List GraphCell
  links : List GraphLink

structure FieldRegionItem extends Node where
  contentLayer : ContentLayer
  label : DocItemLabel
  prov : List ProvenanceItem
  source : List SourceType

structure PageItem where
  pageNo : Int32
  width : Nat
  height : Nat
  deriving DecidableEq

structure Document where
  schemaName : Bytes := []
  version : Bytes := []
  name : Bytes := []
  body : GroupItem := {}
  groups : List GroupItem := []
  texts : List BaseTextItem := []
  pictures : List PictureItem := []
  tables : List TableItem := []
  keyValueItems : List KeyValueItem := []
  fieldRegions : List FieldRegionItem := []
  pages : List PageItem := []

/-! ## The page and its warnings -/

/-- mirrors src/mapping/image_crop.h:33-44 -/
structure CropBudget where
  maxCrops : Nat
  maxAreaPages : Float
  maxInlineBytes : Nat

/-- mirrors src/mapping/mapper.h:17-49 -/
structure PageContext where
  pageNo : UInt32
  width : Nat
  height : Nat
  png : Bytes
  crops : CropBudget
  source : Wire
  generation : Option Wire
  alternatives : Option Wire

/-- A page without a raster. -/
def samplePage : PageContext where
  pageNo := 1
  width := 800
  height := 600
  png := []
  crops := ⟨100, 2.0, 3145728⟩
  source := ⟨ascii "vlm-convert"⟩
  generation := none
  alternatives := none

inductive PageWarningCode
  | tableTruncated | tableGridOmitted | pictureImagesSkipped
  deriving DecidableEq, Repr

structure PageWarning where
  code : PageWarningCode
  message : Bytes
  ref : Bytes
  deriving DecidableEq, Repr

/-- `none`: the caller collects no warnings.
mirrors src/mapping/builder.h:189-198 -/
def addWarning (warnings : Option (List PageWarning)) (code : PageWarningCode)
    (message ref : Bytes) : Option (List PageWarning) :=
  warnings.map fun l => l ++ [⟨code, message, ref⟩]

/-- mirrors src/mapping/builder.h:200-223 -/
def noteTableCut (cut : TableCut) (data : TableData) (what ref : Bytes)
    (warnings : Option (List PageWarning)) : Option (List PageWarning) :=
  let warnings := if cut.truncated then
      addWarning warnings .tableTruncated (what ++ ascii " held " ++ decimal cut.sourceRows ++
        ascii " rows by " ++ decimal cut.sourceCols ++ ascii " columns; kept the first " ++
        decimal data.numRows ++ ascii " by " ++ decimal data.numCols ++ ascii " (caps: " ++
        decimal kMaxTableRows ++ ascii " rows, " ++ decimal kMaxTableCols ++ ascii " columns, " ++
        decimal kMaxTableCells ++ ascii " cells)") ref
    else warnings
  if cut.gridOmitted then
    addWarning warnings .tableGridOmitted (what ++ ascii " grid would cost more than " ++
      decimal kMaxGridBytes ++
      ascii " bytes of cell copies (overlapping or long spanned cells); kept its " ++
      decimal data.tableCells.length ++ ascii " cells with an empty grid") ref
  else warnings

/-! ## Picture crops -/

/-- mirrors src/mapping/image_crop.h:52-58 -/
inductive Crop
  | attached (image : Wire)
  | failed
  | overBudget
  | overByteCap
  | rasterTooLarge

/-- The page raster as the mappers ask it: what a crop comes to, given the
crops asked for before it, and the sizes its warnings report.
`ImageCrop.oracle` is the one of a decoded page. -/
structure PageRaster where
  crop : List BoundingBox → BoundingBox → Crop
  inlineBytes : List BoundingBox → Nat
  width : List BoundingBox → Nat
  height : List BoundingBox → Nat

/-- A raster that cannot be decoded. -/
def sampleRaster : PageRaster := ⟨fun _ _ => .failed, fun _ => 0, fun _ => 0, fun _ => 0⟩

def kMaxRasterPixels : Nat := 40000000

/-- The crops asked for so far and those a cap refused. -/
structure CropState where
  requests : List BoundingBox := []
  overBudget : Nat := 0
  overBytes : Nat := 0
  tooLarge : Nat := 0

/-- mirrors src/mapping/doctags.cpp:416-433, src/mapping/layout.cpp:742-760 -/
def cropPicture (raster : PageRaster) (state : CropState) (box : BoundingBox) :
    Option Wire × CropState :=
  let state' := { state with requests := state.requests ++ [box] }
  match raster.crop state.requests box with
  | .attached image => (some image, state')
  | .overBudget => (none, { state' with overBudget := state.overBudget + 1 })
  | .overByteCap => (none, { state' with overBytes := state.overBytes + 1 })
  | .rasterTooLarge => (none, { state' with tooLarge := state.tooLarge + 1 })
  | .failed => (none, state')

/-- One warning per cap that refused a crop.
mirrors src/mapping/doctags.cpp:943-968, src/mapping/layout.cpp:1032-1058 -/
def cropWarnings (page : PageContext) (raster : PageRaster) (state : CropState)
    (warnings : Option (List PageWarning)) : Option (List PageWarning) :=
  let warnings := if state.overBudget > 0 then
      addWarning warnings .pictureImagesSkipped (decimal state.overBudget ++
        ascii " picture(s) carry no image: the page's crop budget (" ++
        decimal page.crops.maxCrops ++ ascii " crops, " ++
        decimalInt page.crops.maxAreaPages.toInt32.toInt ++ ascii "x the page's pixels) ran out") []
    else warnings
  let warnings := if state.overBytes > 0 then
      addWarning warnings .pictureImagesSkipped (decimal state.overBytes ++
        ascii " picture(s) carry no image: the page's inline image cap (" ++
        decimal page.crops.maxInlineBytes ++ ascii " bytes, " ++
        decimal (raster.inlineBytes state.requests) ++ ascii " attached) ran out") []
    else warnings
  if state.tooLarge > 0 then
    addWarning warnings .pictureImagesSkipped (decimal state.tooLarge ++
      ascii " picture(s) carry no image: the page raster is " ++
      decimal (raster.width state.requests) ++ ascii "x" ++
        decimal (raster.height state.requests) ++
      ascii ", above the " ++ decimal kMaxRasterPixels ++ ascii "-pixel decode cap") []
  else warnings

/-! ## Adders -/

/-- mirrors src/mapping/builder.h:19-27 -/
def fullPageBox (page : PageContext) : BoundingBox :=
  ⟨0, 0, page.width.toFloat, page.height.toFloat⟩

/-- mirrors src/mapping/builder.h:29-35 -/
def makeProv (page : PageContext) (box : BoundingBox) : ProvenanceItem :=
  ⟨page.pageNo.toInt32, box, none⟩

/-- `make_prov` with a charspan from 0.
mirrors src/mapping/doctags.cpp:59-69, src/mapping/layout.cpp:509-515 -/
def provWithCharspan (page : PageContext) (box : BoundingBox) (end_ : Nat) : ProvenanceItem :=
  { makeProv page box with charspan := some (0, end_) }

/-- UTF-8 characters.
mirrors src/mapping/doctags.cpp:71-80, src/mapping/layout.cpp:16-24 -/
def charLength (text : Bytes) : Nat := (text.filter fun c => c &&& 0xC0 != 0x80).length

/-- mirrors src/mapping/builder.h:44-50 -/
def addSources (page : PageContext) : List SourceType :=
  .collector page.source :: (page.generation.map SourceType.generation).toList

/-- mirrors src/mapping/builder.h:53-62 -/
def fillTextBase (page : PageContext) (label : DocItemLabel) (prov : ProvenanceItem)
    (text : Bytes) :
    TextItemBase where
  contentLayer := .body
  label := label
  labelRaw := none
  prov := [prov]
  orig := text
  text := text
  formatting := none
  hyperlink := none
  source := addSources page

def Document.addTexts (doc : Document) (item : BaseTextItem) : Document :=
  { doc with texts := doc.texts ++ [item] }

def Document.addPictures (doc : Document) (item : PictureItem) : Document :=
  { doc with pictures := doc.pictures ++ [item] }

def Document.addTables (doc : Document) (item : TableItem) : Document :=
  { doc with tables := doc.tables ++ [item] }

def Document.addGroups (doc : Document) (item : GroupItem) : Document :=
  { doc with groups := doc.groups ++ [item] }

def Document.addKeyValueItems (doc : Document) (item : KeyValueItem) : Document :=
  { doc with keyValueItems := doc.keyValueItems ++ [item] }

def Document.addFieldRegions (doc : Document) (item : FieldRegionItem) : Document :=
  { doc with fieldRegions := doc.fieldRegions ++ [item] }

section Adders
variable (doc : Document) (page : PageContext) (prov : ProvenanceItem) (text : Bytes)

/-- mirrors src/mapping/builder.h:64-71 -/
def addText (label : DocItemLabel) : Document :=
  doc.addTexts (.text (fillTextBase page label prov text))

/-- mirrors src/mapping/builder.h:73-81 -/
def addSectionHeader (level : Int) : Document :=
  doc.addTexts (.sectionHeader (fillTextBase page .sectionHeader prov text) level)

/-- mirrors src/mapping/builder.h:83-90 -/
def addTitle : Document := doc.addTexts (.title (fillTextBase page .title prov text))

/-- mirrors src/mapping/builder.h:92-104 -/
def addListItem (enumerated : Bool) (marker : Bytes) : Document :=
  doc.addTexts (.listItem (fillTextBase page .listItem prov text) enumerated
    (if marker.isEmpty then none else some marker))

/-- mirrors src/mapping/builder.h:106-122 -/
def addCode (languageRaw : Bytes) (language : Option CodeLanguageLabel) : Document :=
  doc.addTexts (.code {
    contentLayer := .body
    label := .code
    prov := [prov]
    orig := text
    text := text
    source := addSources page
    captions := []
    footnotes := []
    codeLanguage := language
    codeLanguageRaw := if languageRaw.isEmpty then none else some languageRaw })

/-- mirrors src/mapping/builder.h:124-131 -/
def addFormula : Document := doc.addTexts (.formula (fillTextBase page .formula prov text))

end Adders

/-- mirrors src/mapping/builder.h:133-141 -/
def newPicture (page : PageContext) (prov : ProvenanceItem) : PictureItem :=
  { contentLayer := .body, label := .picture, prov := [prov], source := addSources page }

/-- mirrors src/mapping/builder.h:143-151 -/
def newTable (page : PageContext) (prov : ProvenanceItem) : TableItem :=
  { contentLayer := .body, label := .table, prov := [prov], source := addSources page }

/-- `base_of`: the base of every variant but code.
mirrors src/mapping/layout.cpp:26-45 -/
def BaseTextItem.mapBase (f : TextItemBase → TextItemBase) : BaseTextItem → BaseTextItem
  | .title base => .title (f base)
  | .sectionHeader base level => .sectionHeader (f base) level
  | .listItem base enumerated marker => .listItem (f base) enumerated marker
  | .formula base => .formula (f base)
  | .text base => .text (f base)
  | .fieldHeading base => .fieldHeading (f base)
  | .fieldValue base kind => .fieldValue (f base) kind
  | .code item => .code item

/-! ## Stamping -/

def Node.stamp (selfRef parent : Bytes) (node : Node) : Node :=
  { node with selfRef := selfRef, parent := some parent }

def Node.addChild (ref : Bytes) (node : Node) : Node :=
  { node with children := node.children ++ [ref] }

/-- mirrors src/mapping/builder.h:276-280 -/
def stampTextRef (base : TextItemBase) (selfRef parent : Bytes) : TextItemBase :=
  { base with selfRef := selfRef, parent := some parent }

/-- mirrors src/mapping/builder.h:282-315 -/
def stampTextItem (item : BaseTextItem) (selfRef parent : Bytes) : BaseTextItem :=
  match item with
  | .title base => .title (stampTextRef base selfRef parent)
  | .sectionHeader base level => .sectionHeader (stampTextRef base selfRef parent) level
  | .listItem base enumerated marker =>
      .listItem (stampTextRef base selfRef parent) enumerated marker
  | .formula base => .formula (stampTextRef base selfRef parent)
  | .text base => .text (stampTextRef base selfRef parent)
  | .fieldHeading base => .fieldHeading (stampTextRef base selfRef parent)
  | .fieldValue base kind => .fieldValue (stampTextRef base selfRef parent) kind
  | .code item => .code { item with selfRef := selfRef, parent := some parent }

/-- Sets the self ref and the parent of one item. -/
def stampItem (doc : Document) (child : BodyChild) (parent : Bytes) : Document :=
  let selfRef := bodyChildRef child
  match child.kind with
  | .text => { doc with texts := doc.texts.modify child.index (stampTextItem · selfRef parent) }
  | .picture => { doc with pictures := doc.pictures.modify child.index fun picture =>
      { picture with selfRef := selfRef, parent := some parent } }
  | .table => { doc with tables := doc.tables.modify child.index fun table =>
      { table with selfRef := selfRef, parent := some parent } }
  | .keyValue => { doc with keyValueItems := doc.keyValueItems.modify child.index fun kv =>
      { kv with selfRef := selfRef, parent := some parent } }
  | .group => { doc with groups := doc.groups.modify child.index fun group =>
      { group with selfRef := selfRef, parent := some parent } }
  | .fieldRegion => { doc with fieldRegions := doc.fieldRegions.modify child.index fun region =>
      { region with selfRef := selfRef, parent := some parent } }

def BaseTextItem.addChild (ref : Bytes) : BaseTextItem → BaseTextItem
  | .code item => .code { item with children := item.children ++ [ref] }
  | item => item.mapBase fun base => { base with children := base.children ++ [ref] }

/-- A child reference on an item; key-value items hold none.
mirrors src/mapping/layout.cpp:969-990 -/
def addItemChild (doc : Document) (parent : BodyChild) (ref : Bytes) : Document :=
  match parent.kind with
  | .group => { doc with groups := doc.groups.modify parent.index fun group =>
      { group with children := group.children ++ [ref] } }
  | .picture => { doc with pictures := doc.pictures.modify parent.index fun picture =>
      { picture with children := picture.children ++ [ref] } }
  | .table => { doc with tables := doc.tables.modify parent.index fun table =>
      { table with children := table.children ++ [ref] } }
  | .fieldRegion => { doc with fieldRegions := doc.fieldRegions.modify parent.index fun region =>
      { region with children := region.children ++ [ref] } }
  | .text => { doc with texts := doc.texts.modify parent.index (·.addChild ref) }
  | .keyValue => doc

def addBodyChild (doc : Document) (ref : Bytes) : Document :=
  { doc with body := { doc.body with children := doc.body.children ++ [ref] } }

/-- The body's own fields.
mirrors src/mapping/builder.h:363-376 -/
def startBody (doc : Document) (page : PageContext) : Document :=
  { doc with
    schemaName := ascii "docling_document_v2"
    version := ascii "1.10.0"
    name := ascii "page-" ++ decimal page.pageNo.toNat
    body := { doc.body with
      selfRef := bodyRef
      contentLayer := .body
      alternatives := page.alternatives.or doc.body.alternatives } }

def setPage (doc : Document) (page : PageContext) : Document :=
  { doc with pages := doc.pages.filter (fun item => item.pageNo != page.pageNo.toInt32) ++
    [⟨page.pageNo.toInt32, page.width, page.height⟩] }

/-- mirrors src/mapping/builder.h:361-411 -/
def finalizeDocument (doc : Document) (page : PageContext) (order : List BodyChild) : Document :=
  setPage (order.foldl
    (fun doc child => addBodyChild (stampItem doc child bodyRef) (bodyChildRef child))
    (startBody doc page)) page

/-- The text an item carries. -/
def itemText : BaseTextItem → Bytes
  | .title base | .sectionHeader base _ | .listItem base _ _ | .formula base | .text base
  | .fieldHeading base | .fieldValue base _ => base.text
  | .code item => item.text

def BaseTextItem.prov : BaseTextItem → List ProvenanceItem
  | .title base | .sectionHeader base _ | .listItem base _ _ | .formula base | .text base
  | .fieldHeading base | .fieldValue base _ => base.prov
  | .code item => item.prov

/-! ## The reference fields of a document -/

def BaseTextItem.node : BaseTextItem → Node
  | .title base | .sectionHeader base _ | .listItem base _ _ | .formula base | .text base
  | .fieldHeading base | .fieldValue base _ => base.toNode
  | .code item => item.toNode

def Document.node (doc : Document) (child : BodyChild) : Option Node :=
  match child.kind with
  | .text => doc.texts[child.index]?.map BaseTextItem.node
  | .picture => doc.pictures[child.index]?.map (·.toNode)
  | .table => doc.tables[child.index]?.map (·.toNode)
  | .keyValue => doc.keyValueItems[child.index]?.map (·.toNode)
  | .group => doc.groups[child.index]?.map (·.toNode)
  | .fieldRegion => doc.fieldRegions[child.index]?.map (·.toNode)

/-- The number of items of a kind. -/
def Document.size (doc : Document) : BodyChild.Kind → Nat
  | .text => doc.texts.length
  | .picture => doc.pictures.length
  | .table => doc.tables.length
  | .keyValue => doc.keyValueItems.length
  | .group => doc.groups.length
  | .fieldRegion => doc.fieldRegions.length

/-- The children list of an item, or of the body. -/
def Document.childrenOf (doc : Document) : Option BodyChild → List Bytes
  | none => doc.body.children
  | some parent => ((doc.node parent).map Node.children).getD []

section Lens
variable (doc : Document) (child r : BodyChild)

theorem node_isSome : (doc.node r).isSome = true ↔ r.index < doc.size r.kind := by
  obtain ⟨k, i⟩ := r
  cases k <;> simp [Document.node, Document.size]

/-- An update of the items of one kind that changes one item's node. -/
theorem getElem?_modify_node {α : Type} (l : List α) (f : α → α) (node : α → Node) (g : Node → Node)
    (h : ∀ a, node (f a) = g (node a)) (i j : Nat) :
    (l.modify i f)[j]?.map node = if j = i then (l[j]?.map node).map g else l[j]?.map node := by
  rw [List.getElem?_modify]
  cases l[j]? with
  | none => simp
  | some a => by_cases hij : i = j <;> simp [hij, h, eq_comm]

theorem stampTextItem_node (item : BaseTextItem) (selfRef parent : Bytes) :
    (stampTextItem item selfRef parent).node = item.node.stamp selfRef parent := by
  cases item <;> rfl

/-- Stamping sets the item's self ref and parent and nothing else. -/
theorem stamp_node (parent : Bytes) : (stampItem doc child parent).node r =
    if r = child then (doc.node r).map (Node.stamp (bodyChildRef child) parent)
    else doc.node r := by
  obtain ⟨k, i⟩ := child
  obtain ⟨k', j⟩ := r
  by_cases hk : k' = k
  · subst hk
    simp only [BodyChild.mk.injEq, true_and]
    cases k' with
    | text => exact getElem?_modify_node _ _ _ _ (fun _ => stampTextItem_node _ _ _) i j
    | picture => exact getElem?_modify_node _ _ _ _ (by intro a; rfl) i j
    | table => exact getElem?_modify_node _ _ _ _ (by intro a; rfl) i j
    | keyValue => exact getElem?_modify_node _ _ _ _ (by intro a; rfl) i j
    | group => exact getElem?_modify_node _ _ _ _ (by intro a; rfl) i j
    | fieldRegion => exact getElem?_modify_node _ _ _ _ (by intro a; rfl) i j
  · rw [if_neg (fun h => hk (congrArg BodyChild.kind h))]
    cases k <;> cases k' <;> first | rfl | exact absurd rfl hk

/-- Adding a child reference to an item adds it to that item's children. -/
theorem addItemChild_node (ref : Bytes) (hk : child.kind ≠ .keyValue) :
    (addItemChild doc child ref).node r =
      if r = child then (doc.node r).map (Node.addChild ref) else doc.node r := by
  obtain ⟨k, i⟩ := child
  obtain ⟨k', j⟩ := r
  by_cases hkk : k' = k
  · subst hkk
    simp only [BodyChild.mk.injEq, true_and]
    cases k' with
    | text => exact getElem?_modify_node _ _ _ _ (fun item => by cases item <;> rfl) i j
    | picture => exact getElem?_modify_node _ _ _ _ (by intro a; rfl) i j
    | table => exact getElem?_modify_node _ _ _ _ (by intro a; rfl) i j
    | keyValue => exact absurd rfl hk
    | group => exact getElem?_modify_node _ _ _ _ (by intro a; rfl) i j
    | fieldRegion => exact getElem?_modify_node _ _ _ _ (by intro a; rfl) i j
  · rw [if_neg (fun h => hkk (congrArg BodyChild.kind h))]
    cases k <;> cases k' <;> first | rfl | exact absurd rfl hkk

@[simp] theorem stampItem_body (parent : Bytes) : (stampItem doc child parent).body = doc.body := by
  unfold stampItem
  split <;> rfl

@[simp] theorem addItemChild_body (ref : Bytes) : (addItemChild doc child ref).body = doc.body := by
  unfold addItemChild
  split <;> rfl

@[simp] theorem addBodyChild_node (ref : Bytes) : (addBodyChild doc ref).node r = doc.node r := rfl

end Lens

/-! ## Captions and footnotes -/

def PictureItem.links (item : PictureItem) : List Bytes := item.captions ++ item.footnotes

def TableItem.links (item : TableItem) : List Bytes := item.captions ++ item.footnotes

def BaseTextItem.links : BaseTextItem → List Bytes
  | .code item => item.captions ++ item.footnotes
  | _ => []

/-- The captions and footnotes of every item. -/
def Document.links (doc : Document) : List Bytes :=
  doc.pictures.flatMap PictureItem.links ++ doc.tables.flatMap TableItem.links ++
    doc.texts.flatMap BaseTextItem.links

/-- The captions of pictures and tables. -/
def Document.captions (doc : Document) : List Bytes :=
  doc.pictures.flatMap (·.captions) ++ doc.tables.flatMap (·.captions)

section Links
variable (doc : Document) (child : BodyChild) (ref : Bytes)

theorem stampItem_links : (stampItem doc child ref).links = doc.links := by
  have hpicture : ∀ item : PictureItem, PictureItem.links { item with
      selfRef := bodyChildRef child, parent := some ref } = item.links := fun _ => rfl
  have htable : ∀ item : TableItem, TableItem.links { item with
      selfRef := bodyChildRef child, parent := some ref } = item.links := fun _ => rfl
  have htext : ∀ item : BaseTextItem,
      (stampTextItem item (bodyChildRef child) ref).links = item.links := by
    intro item
    cases item <;> rfl
  unfold stampItem Document.links
  split <;> simp [flatMap_modify, hpicture, htable, htext]

theorem addItemChild_links : (addItemChild doc child ref).links = doc.links := by
  have hpicture : ∀ item : PictureItem, PictureItem.links { item with
      children := item.children ++ [ref] } = item.links := fun _ => rfl
  have htable : ∀ item : TableItem, TableItem.links { item with
      children := item.children ++ [ref] } = item.links := fun _ => rfl
  have htext : ∀ item : BaseTextItem, (item.addChild ref).links = item.links := by
    intro item
    cases item <;> rfl
  unfold addItemChild Document.links
  split <;> simp [flatMap_modify, hpicture, htable, htext]

theorem stampItem_captions : (stampItem doc child ref).captions = doc.captions := by
  unfold stampItem Document.captions
  split <;> simp [flatMap_modify]

theorem addItemChild_captions : (addItemChild doc child ref).captions = doc.captions := by
  unfold addItemChild Document.captions
  split <;> simp [flatMap_modify]

end Links

/-! ## Adding an item -/

/-- `doc'` is `doc` with one more item, at `r`. -/
structure Adds (doc doc' : Document) (r : BodyChild) (node : Node) : Prop where
  index : r.index = doc.size r.kind
  node_eq : ∀ r', doc'.node r' = if r' = r then some node else doc.node r'
  body_eq : doc'.body = doc.body

theorem getElem?_append_node {α : Type} (l : List α) (a : α) (node : α → Node) (j : Nat) :
    (l ++ [a])[j]?.map node = if j = l.length then some (node a) else l[j]?.map node := by
  by_cases hj : j = l.length
  · simp [hj]
  · rcases Nat.lt_or_gt_of_ne hj with h | h
    · simp [hj, List.getElem?_append_left h]
    · rw [if_neg hj, List.getElem?_eq_none (by simp; omega), List.getElem?_eq_none (by omega)]

section Adds
variable (doc : Document)

theorem adds_texts (item : BaseTextItem) :
    Adds doc (doc.addTexts item) ⟨.text, doc.texts.length⟩ item.node := by
  refine ⟨rfl, fun r => ?_, rfl⟩
  obtain ⟨k, j⟩ := r
  cases k with
  | text =>
    simpa [Document.node, Document.addTexts]
      using getElem?_append_node doc.texts item BaseTextItem.node j
  | _ => simp [Document.node, Document.addTexts]

theorem adds_pictures (item : PictureItem) :
    Adds doc (doc.addPictures item) ⟨.picture, doc.pictures.length⟩ item.toNode := by
  refine ⟨rfl, fun r => ?_, rfl⟩
  obtain ⟨k, j⟩ := r
  cases k with
  | picture =>
    simpa [Document.node, Document.addPictures]
      using getElem?_append_node doc.pictures item (·.toNode) j
  | _ => simp [Document.node, Document.addPictures]

theorem adds_tables (item : TableItem) :
    Adds doc (doc.addTables item) ⟨.table, doc.tables.length⟩ item.toNode := by
  refine ⟨rfl, fun r => ?_, rfl⟩
  obtain ⟨k, j⟩ := r
  cases k with
  | table =>
    simpa [Document.node, Document.addTables]
      using getElem?_append_node doc.tables item (·.toNode) j
  | _ => simp [Document.node, Document.addTables]

theorem adds_groups (item : GroupItem) :
    Adds doc (doc.addGroups item) ⟨.group, doc.groups.length⟩ item.toNode := by
  refine ⟨rfl, fun r => ?_, rfl⟩
  obtain ⟨k, j⟩ := r
  cases k with
  | group =>
    simpa [Document.node, Document.addGroups]
      using getElem?_append_node doc.groups item (·.toNode) j
  | _ => simp [Document.node, Document.addGroups]

theorem adds_keyValueItems (item : KeyValueItem) :
    Adds doc (doc.addKeyValueItems item) ⟨.keyValue, doc.keyValueItems.length⟩ item.toNode := by
  refine ⟨rfl, fun r => ?_, rfl⟩
  obtain ⟨k, j⟩ := r
  cases k with
  | keyValue =>
    simpa [Document.node, Document.addKeyValueItems]
      using getElem?_append_node doc.keyValueItems item (·.toNode) j
  | _ => simp [Document.node, Document.addKeyValueItems]

theorem adds_fieldRegions (item : FieldRegionItem) :
    Adds doc (doc.addFieldRegions item) ⟨.fieldRegion, doc.fieldRegions.length⟩ item.toNode := by
  refine ⟨rfl, fun r => ?_, rfl⟩
  obtain ⟨k, j⟩ := r
  cases k with
  | fieldRegion =>
    simpa [Document.node, Document.addFieldRegions]
      using getElem?_append_node doc.fieldRegions item (·.toNode) j
  | _ => simp [Document.node, Document.addFieldRegions]

end Adds

/-- The new item was not there. -/
theorem Adds.fresh {doc doc' : Document} {r : BodyChild} {node : Node} (h : Adds doc doc' r node) :
    doc.node r = none := by
  rw [← Option.not_isSome_iff_eq_none, node_isSome, h.index]
  exact Nat.lt_irrefl _

/-! ## Finalizing -/

theorem finalize_fold (order : List BodyChild) : ∀ (doc : Document),
    (∀ r, (order.foldl (fun doc child => addBodyChild (stampItem doc child bodyRef)
      (bodyChildRef child)) doc).node r =
        if r ∈ order then (doc.node r).map (Node.stamp (bodyChildRef r) bodyRef) else doc.node r) ∧
    (order.foldl (fun doc child => addBodyChild (stampItem doc child bodyRef) (bodyChildRef child))
      doc).body.children = doc.body.children ++ order.map bodyChildRef := by
  induction order with
  | nil => intro doc; simp
  | cons child order ih =>
    intro doc
    obtain ⟨hnode, hbody⟩ := ih (addBodyChild (stampItem doc child bodyRef) (bodyChildRef child))
    rw [List.foldl_cons]
    refine ⟨fun r => ?_, ?_⟩
    · rw [hnode, addBodyChild_node, stamp_node]
      by_cases hr : r = child
      · subst hr
        cases doc.node r <;> simp [Node.stamp]
      · simp [hr]
    · rw [hbody]
      simp [addBodyChild]

theorem finalize_node (doc : Document) (page : PageContext) (order : List BodyChild)
    (r : BodyChild) :
    (finalizeDocument doc page order).node r =
      if r ∈ order then (doc.node r).map (Node.stamp (bodyChildRef r) bodyRef) else doc.node r :=
  (finalize_fold order (startBody doc page)).1 r

theorem finalize_children (doc : Document) (page : PageContext) (order : List BodyChild) :
    (finalizeDocument doc page order).body.children =
      doc.body.children ++ order.map bodyChildRef :=
  (finalize_fold order (startBody doc page)).2

theorem finalize_links (doc : Document) (page : PageContext) (order : List BodyChild) :
    (finalizeDocument doc page order).links = doc.links := by
  have hfold : ∀ (order : List BodyChild) (doc : Document), (order.foldl (fun doc child =>
      addBodyChild (stampItem doc child bodyRef) (bodyChildRef child)) doc).links = doc.links := by
    intro order
    induction order with
    | nil => intro doc; rfl
    | cons child order ih =>
      intro doc
      rw [List.foldl_cons, ih]
      exact stampItem_links doc child bodyRef
  exact hfold order (startBody doc page)

/-! ## Reference trees -/

/-- An item of the document, or its body. -/
def Document.Holds (doc : Document) (p : Option BodyChild) : Prop :=
  ∀ r, p = some r → (doc.node r).isSome = true

def Document.parentOf (doc : Document) (r : BodyChild) : Option Bytes :=
  (doc.node r).bind Node.parent

/-- The parents of an item lead to the body. -/
inductive Document.ReachesBody (doc : Document) : BodyChild → Prop
  | body {r : BodyChild} : doc.parentOf r = some bodyRef → ReachesBody doc r
  | item {r p : BodyChild} : doc.parentOf r = some (bodyChildRef p) → (doc.node p).isSome = true →
      ReachesBody doc p → ReachesBody doc r

/-- The document's references are a tree over its items, whose children lists
follow the order `created`. -/
structure RefTree (doc : Document) (created : List BodyChild) : Prop where
  self_ref : ∀ {r node}, doc.node r = some node → node.selfRef = bodyChildRef r
  one_parent : ∀ {r node}, doc.node r = some node → ∃ p, doc.Holds p ∧
    node.parent = some (parentRef p) ∧ (doc.childrenOf p).count node.selfRef = 1 ∧
    ∀ q, doc.Holds q → q ≠ p → node.selfRef ∉ doc.childrenOf q
  order : ∀ {p}, doc.Holds p → doc.childrenOf p =
    (created.filter fun r => decide (doc.parentOf r = some (parentRef p))).map bodyChildRef
  rooted : ∀ {r}, (doc.node r).isSome = true → doc.ReachesBody r

/-- The document's references are those of a forest. -/
structure Represents (doc : Document) (f : Forest BodyChild) : Prop where
  items : ∀ r, (doc.node r).isSome = true ↔ r ∈ f.nodes
  stamped : ∀ {r p}, (r, p) ∈ f.created → ∃ node, doc.node r = some node ∧
    node.selfRef = bodyChildRef r ∧ node.parent = some (parentRef p)
  children : ∀ {p}, doc.Holds p → doc.childrenOf p = (f.children p).map bodyChildRef

section RefTree
variable {doc : Document} {f : Forest BodyChild}

theorem Represents.parentOf (h : Represents doc f) {r : BodyChild} {p : Option BodyChild}
    (hr : (r, p) ∈ f.created) : doc.parentOf r = some (parentRef p) := by
  obtain ⟨node, hnode, -, hparent⟩ := h.stamped hr
  rw [Document.parentOf, hnode, Option.bind_some, hparent]

theorem Represents.reaches (h : Represents doc f) {r : BodyChild} (hr : f.Rooted r) :
    doc.ReachesBody r := by
  induction hr with
  | root hmem => exact .body (h.parentOf hmem)
  | under hmem _ ih => exact .item (h.parentOf hmem) ((h.items _).2 (Forest.parent_mem hmem)) ih

/-- **References of a forest are a reference tree**, in creation order. -/
theorem RefTree.of_represents (h : Represents doc f) : RefTree doc f.nodes := by
  have hcreated : ∀ {r node}, doc.node r = some node → ∃ p, (r, p) ∈ f.created := fun {r node} hr =>
    Forest.mem_nodes.1 ((h.items r).1 (by rw [hr]; rfl))
  have hcount : ∀ (r : BodyChild) (l : List BodyChild),
      (l.map bodyChildRef).count (bodyChildRef r) = l.count r := fun r l =>
    List.count_map_of_injective l bodyChildRef bodyChildRef_injective r
  refine ⟨fun {r node} hr => ?_, fun {r node} hr => ?_, fun {p} hp => ?_, fun {r} hr => ?_⟩
  · obtain ⟨p, hmem⟩ := hcreated hr
    obtain ⟨node', hnode, hself, -⟩ := h.stamped hmem
    rw [hr] at hnode
    cases hnode
    exact hself
  · obtain ⟨p, hmem⟩ := hcreated hr
    obtain ⟨node', hnode, hself, hparent⟩ := h.stamped hmem
    rw [hr] at hnode
    cases hnode
    have hp : doc.Holds p := by
      rintro q rfl
      exact (h.items q).2 (Forest.parent_mem hmem)
    obtain ⟨hone, hother⟩ := Forest.count_children hmem
    refine ⟨p, hp, hparent, ?_, fun q hq hne => ?_⟩
    · rw [h.children hp, hself, hcount, hone]
    · rw [h.children hq, hself, List.mem_map]
      rintro ⟨r', hr', he⟩
      exact hother q hne (bodyChildRef_injective he ▸ hr')
  · rw [h.children hp, Forest.children, Forest.nodes, List.filter_map]
    congr 2
    apply List.filter_congr
    rintro ⟨r, q⟩ hmem
    simp only [Function.comp_apply, h.parentOf hmem, Option.some.injEq, decide_eq_decide]
    exact ⟨fun e => e ▸ rfl, fun e => parentRef_injective e⟩
  · exact h.reaches (f.rooted ((h.items r).1 hr))

end RefTree

end VlmConvert.L3

import VlmConvert.L3Document.Document
import VlmConvert.L2Table.HtmlTable

/-!
# The layout writer

`LayoutWriter` (`src/mapping/layout.h:112-263`) builds one page fragment for
the layout-grounded formats: every operation adds an item under the body or
under an earlier item, or edits an item, and `finish` stamps the references.

A parent is `none` for `kBody`. The picture metadata setters touch no reference
and stand in `PictureData`, the reads that change nothing (`text_of`,
`children_of`, `label_of`) where they are used.

Result: `layout_refTree`, the references of the finished document are a tree
over the returned items, in the order they were returned.
-/
namespace VlmConvert.L3

open Bytes L2

/-- mirrors src/mapping/layout.h:238-262 -/
structure LayoutWriter where
  doc : Document := {}
  warnings : Option (List PageWarning)
  crops : CropState := {}
  entries : List (BodyChild × Option BodyChild) := []
  body : List BodyChild := []

namespace LayoutWriter

/-- mirrors src/mapping/layout.cpp:517-526 -/
def addEntry (w : LayoutWriter) (ref : BodyChild) (parent : Option BodyChild) : LayoutWriter :=
  { w with
    entries := w.entries ++ [(ref, parent)]
    body := if parent = none then w.body ++ [ref] else w.body }

/-- The writer with its newest text item entered, and that item. -/
def enterText (w : LayoutWriter) (doc : Document) (parent : Option BodyChild) :
    LayoutWriter × BodyChild :=
  let ref := ⟨.text, doc.texts.length - 1⟩
  (addEntry { w with doc := doc } ref parent, ref)

/-- `std::clamp` -/
def clampFloat (v lo hi : Float) : Float := if v < lo then lo else if hi < v then hi else v

/-- mirrors src/mapping/layout.cpp:496-507 -/
def scaledBox (page : PageContext) (l t r b sx sy : Float) : BoundingBox :=
  let width := page.width.toFloat
  let height := page.height.toFloat
  ⟨clampFloat (l * sx) 0 width, clampFloat (t * sy) 0 height, clampFloat (r * sx) 0 width,
    clampFloat (b * sy) 0 height⟩

section Operations
variable (page : PageContext) (raster : PageRaster) (byteSizeLong : TableCell → Nat)
variable (w : LayoutWriter) (box : Option BoundingBox) (body : Bytes) (parent : Option BodyChild)

/-- mirrors src/mapping/layout.cpp:509-515 -/
def prov (chars : Nat) : ProvenanceItem := provWithCharspan page (box.getD (fullPageBox page)) chars

/-- mirrors src/mapping/layout.cpp:674-681 -/
def stampLayer (label : DocItemLabel) (item : BaseTextItem) : BaseTextItem :=
  if label ≠ .pageHeader ∧ label ≠ .pageFooter then item
  else item.mapBase fun base => { base with contentLayer := .furniture }

/-- mirrors src/mapping/layout.cpp:683-689 -/
def text (label : DocItemLabel) : LayoutWriter × BodyChild :=
  let item := BaseTextItem.text (fillTextBase page label (prov page box (charLength body)) body)
  enterText w (w.doc.addTexts (stampLayer label item)) parent

/-- mirrors src/mapping/layout.cpp:691-695 -/
def title : LayoutWriter × BodyChild :=
  enterText w (addTitle w.doc page (prov page box (charLength body)) body) parent

/-- mirrors src/mapping/layout.cpp:697-701 -/
def heading (level : Int) : LayoutWriter × BodyChild :=
  enterText w (addSectionHeader w.doc page (prov page box (charLength body)) body level) parent

/-- mirrors src/mapping/layout.cpp:703-707 -/
def formula : LayoutWriter × BodyChild :=
  enterText w (addFormula w.doc page (prov page box (charLength body)) body) parent

/-- mirrors src/mapping/layout.cpp:709-714 -/
def code (languageRaw : Bytes) : LayoutWriter × BodyChild :=
  enterText w (addCode w.doc page (prov page box (charLength body)) body languageRaw none) parent

/-- mirrors src/mapping/layout.cpp:716-721 -/
def listItem (enumerated : Bool) (marker : Bytes) : LayoutWriter × BodyChild :=
  enterText w (addListItem w.doc page
    (prov page box (charLength body)) body enumerated marker) parent

/-- mirrors src/mapping/layout.cpp:727-734 -/
def group (name : Bytes) (label : GroupLabel) : LayoutWriter × BodyChild :=
  let doc := w.doc.addGroups { name := some name, label := label, contentLayer := .body }
  let ref := ⟨.group, doc.groups.length - 1⟩
  (addEntry { w with doc := doc } ref parent, ref)

/-- mirrors src/mapping/layout.cpp:723-725 -/
def listGroup : LayoutWriter × BodyChild := group w parent (ascii "list") .list

/-- mirrors src/mapping/layout.cpp:627-629 -/
def inlineGroup : LayoutWriter × BodyChild := group w parent (ascii "group") .inline_

/-- mirrors src/mapping/layout.cpp:617-625 -/
def fieldRegion : LayoutWriter × BodyChild :=
  let doc := w.doc.addFieldRegions {
    label := .fieldRegion, contentLayer := .body, prov := [prov page box 0]
    source := addSources page }
  let ref := ⟨.fieldRegion, doc.fieldRegions.length - 1⟩
  (addEntry { w with doc := doc } ref parent, ref)

def setFormat (formatting : Option Wire) (hyperlink : Bytes) (base : TextItemBase) : TextItemBase :=
  { base with
    formatting := formatting.or base.formatting
    hyperlink := if hyperlink.isEmpty then base.hyperlink else some hyperlink }

/-- mirrors src/mapping/layout.cpp:631-672 -/
def styledText (label : DocItemLabel) (formatting : Option Wire) (hyperlink : Bytes) :
    LayoutWriter × BodyChild :=
  let r := match label with
    | .title => title page w box body parent
    | .sectionHeader => heading page w box body parent 1
    | .formula => formula page w box body parent
    | .code => code page w box body parent []
    | .fieldValue =>
      enterText w (w.doc.addTexts (.fieldValue
        (fillTextBase page label (prov page box (charLength body)) body) (ascii "fillable"))) parent
    | _ => text page w box body parent label
  ({ r.1 with doc := { r.1.doc with
      texts := r.1.doc.texts.modify r.2.index (·.mapBase (setFormat formatting hyperlink)) } }, r.2)

/-- A box crops the page raster, when there is one.
mirrors src/mapping/layout.cpp:736-762 -/
def picture : LayoutWriter × BodyChild :=
  let item := newPicture page (prov page box 0)
  let crop := match box with
    | some box => if page.png.isEmpty then (none, w.crops) else cropPicture raster w.crops box
    | none => (none, w.crops)
  let doc := w.doc.addPictures { item with image := crop.1 }
  let ref := ⟨.picture, doc.pictures.length - 1⟩
  (addEntry { w with doc := doc, crops := crop.2 } ref parent, ref)

/-- mirrors src/mapping/layout.cpp:764-776 -/
def table (cells : List SpanCell) : LayoutWriter × BodyChild :=
  let item := newTable page (prov page box 0)
  let ref := ⟨.table, w.doc.tables.length⟩
  if cells.isEmpty then
    (addEntry { w with doc := w.doc.addTables { item with data := some ⟨0, 0, [], []⟩ } } ref
      parent, ref)
  else
    let filled := fillSpanTable byteSizeLong cells
    (addEntry { w with
      doc := w.doc.addTables { item with data := some filled.1 }
      warnings := noteTableCut filled.2 filled.1 (ascii "table") (bodyChildRef ref) w.warnings } ref
      parent, ref)

/-! ### Edits -/

def modifyText (index : Nat) (f : BaseTextItem → BaseTextItem) : LayoutWriter :=
  { w with doc := { w.doc with texts := w.doc.texts.modify index f } }

def setProvEnd (chars : Nat) (prov : ProvenanceItem) : ProvenanceItem :=
  { prov with charspan := some ((prov.charspan.getD (0, 0)).1, chars) }

/-- mirrors src/mapping/layout.cpp:546-579 -/
def setText (ref : BodyChild) (formatting : Option Wire) (hyperlink : Bytes) : LayoutWriter :=
  if ref.kind ≠ .text then w
  else modifyText w ref.index fun item => match item with
    | .code item => .code { item with
        text := body, orig := if item.orig.isEmpty then body else item.orig }
    | item => item.mapBase fun base => { setFormat formatting hyperlink base with
        text := body
        orig := if base.orig.isEmpty then body else base.orig
        prov := base.prov.map (setProvEnd (charLength body)) }

/-- mirrors src/mapping/layout.cpp:581-591 -/
def setOrig (ref : BodyChild) (orig : Bytes) : LayoutWriter :=
  if ref.kind ≠ .text then w
  else modifyText w ref.index fun item => match item with
    | .code item => .code { item with orig := orig }
    | item => item.mapBase fun base => { base with orig := orig }

/-- mirrors src/mapping/layout.cpp:593-598 -/
def setHeadingLevel (textIndex : Nat) (level : Int) : LayoutWriter :=
  modifyText w textIndex fun item => match item with
    | .sectionHeader base _ => .sectionHeader base level
    | item => item

/-- mirrors src/mapping/layout.cpp:600-615 -/
def setContentLayer (ref : BodyChild) (layer : ContentLayer) : LayoutWriter :=
  match ref.kind with
  | .text => modifyText w ref.index fun item => match item with
    | .code item => .code { item with contentLayer := layer }
    | item => item.mapBase fun base => { base with contentLayer := layer }
  | .group => { w with doc := { w.doc with
      groups := w.doc.groups.modify ref.index fun group => { group with contentLayer := layer } } }
  | _ => w

/-- mirrors src/mapping/layout.cpp:847-856 -/
def linkCaption (owner caption : BodyChild) : LayoutWriter :=
  let ref := bodyChildRef caption
  match owner.kind with
  | .picture => { w with doc := { w.doc with
      pictures := w.doc.pictures.modify owner.index fun item =>
        { item with captions := item.captions ++ [ref] } } }
  | .table => { w with doc := { w.doc with
      tables := w.doc.tables.modify owner.index fun item =>
        { item with captions := item.captions ++ [ref] } } }
  | .text => modifyText w owner.index fun item => match item with
    | .code item => .code { item with captions := item.captions ++ [ref] }
    | item => item
  | _ => w

/-- mirrors src/mapping/layout.cpp:858-867 -/
def linkFootnote (owner footnote : BodyChild) : LayoutWriter :=
  let ref := bodyChildRef footnote
  match owner.kind with
  | .picture => { w with doc := { w.doc with
      pictures := w.doc.pictures.modify owner.index fun item =>
        { item with footnotes := item.footnotes ++ [ref] } } }
  | .table => { w with doc := { w.doc with
      tables := w.doc.tables.modify owner.index fun item =>
        { item with footnotes := item.footnotes ++ [ref] } } }
  | .text => modifyText w owner.index fun item => match item with
    | .code item => .code { item with footnotes := item.footnotes ++ [ref] }
    | item => item
  | _ => w

end Operations

/-! ## Finishing -/

/-- Stamps an item that is not under the body; key-value items are not
stamped here.
mirrors src/mapping/layout.cpp:998-1030 -/
def stampEntry (doc : Document) (entry : BodyChild × Option BodyChild) : Document :=
  match entry.2 with
  | none => doc
  | some parent =>
    let doc := if entry.1.kind = .keyValue then doc
      else stampItem doc entry.1 (bodyChildRef parent)
    addItemChild doc parent (bodyChildRef entry.1)

/-- mirrors src/mapping/layout.cpp:963-1060 -/
def finish (page : PageContext) (raster : PageRaster) (w : LayoutWriter) (formatName : Bytes)
    (allowEmpty : Bool) : Except Bytes (Document × Option (List PageWarning)) :=
  if w.entries.isEmpty && !allowEmpty then
    .error (formatName ++ ascii " response produced no document items")
  else
    .ok (w.entries.foldl stampEntry (finalizeDocument w.doc page w.body),
      cropWarnings page raster w.crops w.warnings)

/-! ## Runs -/

inductive Op
  | text (label : DocItemLabel) (box : Option BoundingBox) (body : Bytes)
      (parent : Option BodyChild)
  | title (box : Option BoundingBox) (body : Bytes) (parent : Option BodyChild)
  | heading (level : Int) (box : Option BoundingBox) (body : Bytes) (parent : Option BodyChild)
  | formula (box : Option BoundingBox) (body : Bytes) (parent : Option BodyChild)
  | code (box : Option BoundingBox) (body languageRaw : Bytes) (parent : Option BodyChild)
  | listItem (box : Option BoundingBox) (body : Bytes) (enumerated : Bool) (marker : Bytes)
      (parent : Option BodyChild)
  | listGroup (parent : Option BodyChild)
  | group (name : Bytes) (label : GroupLabel) (parent : Option BodyChild)
  | fieldRegion (box : Option BoundingBox) (parent : Option BodyChild)
  | inlineGroup (parent : Option BodyChild)
  | styledText (label : DocItemLabel) (box : Option BoundingBox) (body : Bytes)
      (formatting : Option Wire) (hyperlink : Bytes) (parent : Option BodyChild)
  | picture (box : Option BoundingBox) (parent : Option BodyChild)
  | table (box : Option BoundingBox) (cells : List SpanCell) (parent : Option BodyChild)
  | setText (ref : BodyChild) (body : Bytes) (formatting : Option Wire) (hyperlink : Bytes)
  | setOrig (ref : BodyChild) (orig : Bytes)
  | setHeadingLevel (textIndex : Nat) (level : Int)
  | setContentLayer (ref : BodyChild) (layer : ContentLayer)
  | linkCaption (owner caption : BodyChild)
  | linkFootnote (owner footnote : BodyChild)

/-- The parent of a new item is the body or an item returned before; so are
all other items passed, and captions and footnotes are text items. -/
def Op.Valid (returned : List BodyChild) : Op → Prop
  | .text _ _ _ p | .title _ _ p | .heading _ _ _ p | .formula _ _ p | .code _ _ _ p
  | .listItem _ _ _ _ p | .listGroup p | .group _ _ p | .fieldRegion _ p | .inlineGroup p
  | .styledText _ _ _ _ _ p | .picture _ p | .table _ _ p => ∀ q, p = some q → q ∈ returned
  | .setText ref _ _ _ | .setOrig ref _ | .setContentLayer ref _ => ref ∈ returned
  | .setHeadingLevel i _ => ⟨.text, i⟩ ∈ returned
  | .linkCaption owner linked | .linkFootnote owner linked =>
    owner ∈ returned ∧ linked ∈ returned ∧ linked.kind = .text

section Runs
variable (page : PageContext) (raster : PageRaster) (byteSizeLong : TableCell → Nat)

/-- An operation and the item it returns, if it makes one. -/
def apply (w : LayoutWriter) : Op → LayoutWriter × Option BodyChild
  | .text label box body p => Prod.map id some (text page w box body p label)
  | .title box body p => Prod.map id some (title page w box body p)
  | .heading level box body p => Prod.map id some (heading page w box body p level)
  | .formula box body p => Prod.map id some (formula page w box body p)
  | .code box body languageRaw p => Prod.map id some (code page w box body p languageRaw)
  | .listItem box body enumerated marker p =>
    Prod.map id some (listItem page w box body p enumerated marker)
  | .listGroup p => Prod.map id some (listGroup w p)
  | .group name label p => Prod.map id some (group w p name label)
  | .fieldRegion box p => Prod.map id some (fieldRegion page w box p)
  | .inlineGroup p => Prod.map id some (inlineGroup w p)
  | .styledText label box body formatting hyperlink p =>
    Prod.map id some (styledText page w box body p label formatting hyperlink)
  | .picture box p => Prod.map id some (picture page raster w box p)
  | .table box cells p => Prod.map id some (table page byteSizeLong w box p cells)
  | .setText ref body formatting hyperlink => (setText w body ref formatting hyperlink, none)
  | .setOrig ref orig => (setOrig w ref orig, none)
  | .setHeadingLevel i level => (setHeadingLevel w i level, none)
  | .setContentLayer ref layer => (setContentLayer w ref layer, none)
  | .linkCaption owner caption => (linkCaption w owner caption, none)
  | .linkFootnote owner footnote => (linkFootnote w owner footnote, none)

/-- A sequence of operations, with the items returned so far. -/
def run (w : LayoutWriter) (returned : List BodyChild) : List Op → LayoutWriter × List BodyChild
  | [] => (w, returned)
  | op :: ops =>
    let r := apply page raster byteSizeLong w op
    run r.1 (returned ++ r.2.toList) ops

/-- Every operation only gets items that earlier ones returned. -/
def ValidRun (w : LayoutWriter) (returned : List BodyChild) : List Op → Prop
  | [] => True
  | op :: ops =>
    let r := apply page raster byteSizeLong w op
    op.Valid returned ∧ ValidRun r.1 (returned ++ r.2.toList) ops

end Runs

/-! ## What an operation does to the references -/

/-- The operation made the item `r` under `p`. -/
structure Made (w w' : LayoutWriter) (r : BodyChild) (p : Option BodyChild) : Prop where
  adds : Adds w.doc w'.doc r {}
  kind : r.kind ≠ .keyValue
  links : w'.doc.links = w.doc.links
  entries : w'.entries = w.entries ++ [(r, p)]
  body : w'.body = if p = none then w.body ++ [r] else w.body

/-- The operation kept every item and its references, and linked at most
`linked` as a caption or footnote. -/
structure Edited (w w' : LayoutWriter) (linked : Option Bytes) : Prop where
  node : ∀ r, w'.doc.node r = w.doc.node r
  doc_body : w'.doc.body = w.doc.body
  links : ∀ ref ∈ w'.doc.links, ref ∈ w.doc.links ∨ linked = some ref
  entries : w'.entries = w.entries
  body : w'.body = w.body

section Effects
variable {w : LayoutWriter} {p : Option BodyChild}

theorem made_enterText {item : BaseTextItem} (hnode : item.node = {}) (hlinks : item.links = []) :
    Made w (enterText w (w.doc.addTexts item) p).1 (enterText w (w.doc.addTexts item) p).2 p := by
  have hindex : (w.doc.addTexts item).texts.length - 1 = w.doc.texts.length := by
    simp [Document.addTexts]
  have hadds := adds_texts w.doc item
  rw [hnode, ← hindex] at hadds
  refine ⟨hadds, ?_, ?_, rfl, rfl⟩
  · simp [enterText]
  · simp [enterText, addEntry, Document.links, Document.addTexts, hlinks]

theorem made_group (name : Bytes) (label : GroupLabel) :
    Made w (group w p name label).1 (group w p name label).2 p := by
  have hindex :
    (w.doc.addGroups { name := some name, label := label, contentLayer := .body }).groups.length
      - 1 = w.doc.groups.length := by
    simp [Document.addGroups]
  have hadds := adds_groups w.doc { name := some name, label := label, contentLayer := .body }
  rw [← hindex] at hadds
  exact ⟨hadds, by simp [group], rfl, rfl, rfl⟩

/-- An update of one text item that keeps its references. -/
theorem modifyText_node {doc : Document} {i : Nat} {f : BaseTextItem → BaseTextItem}
    (h : ∀ item, (f item).node = item.node) (r : BodyChild) :
    ({ doc with texts := doc.texts.modify i f } : Document).node r = doc.node r := by
  obtain ⟨k, j⟩ := r
  cases k with
  | text => simpa [Document.node] using getElem?_modify_node doc.texts f BaseTextItem.node id h i j
  | _ => rfl

section Items
variable (page : PageContext) (raster : PageRaster) (byteSizeLong : TableCell → Nat)
variable (box : Option BoundingBox) (body : Bytes)

theorem made_text (label : DocItemLabel) :
    Made w (text page w box body p label).1 (text page w box body p label).2 p := by
  unfold text stampLayer
  split
  · exact made_enterText rfl rfl
  · exact made_enterText rfl rfl

theorem made_fieldRegion : Made w (fieldRegion page w box p).1 (fieldRegion page w box p).2 p := by
  have hindex :
      (w.doc.addFieldRegions
        { label := .fieldRegion, contentLayer := .body, prov := [prov page box 0],
          source := addSources page }).fieldRegions.length - 1 = w.doc.fieldRegions.length := by
    simp [Document.addFieldRegions]
  have hadds := adds_fieldRegions w.doc
    { label := .fieldRegion, contentLayer := .body, prov := [prov page box 0],
      source := addSources page }
  rw [← hindex] at hadds
  exact ⟨hadds, by simp [fieldRegion], rfl, rfl, rfl⟩

theorem made_picture :
    Made w (picture page raster w box p).1 (picture page raster w box p).2 p := by
  unfold picture
  generalize hcrop : (match box with
    | some box => if page.png.isEmpty then (none, w.crops) else cropPicture raster w.crops box
    | none => (none, w.crops)) = crop
  have hindex : ∀ item, (w.doc.addPictures item).pictures.length - 1 = w.doc.pictures.length := by
    simp [Document.addPictures]
  have hadds := adds_pictures w.doc { newPicture page (prov page box 0) with image := crop.1 }
  rw [← hindex] at hadds
  refine ⟨hadds, by simp, ?_, rfl, rfl⟩
  simp [addEntry, Document.links, Document.addPictures, PictureItem.links, newPicture]

theorem made_table (cells : List SpanCell) :
    Made w (table page byteSizeLong w box p cells).1
      (table page byteSizeLong w box p cells).2 p := by
  have hlinks :
    ∀ data, (w.doc.addTables { newTable page (prov page box 0) with data := data }).links =
      w.doc.links := by
    intro data
    simp [Document.links, Document.addTables, TableItem.links, newTable]
  unfold table
  split
  · exact ⟨adds_tables w.doc _, by simp, hlinks _, rfl, rfl⟩
  · exact ⟨adds_tables w.doc _, by simp, hlinks _, rfl, rfl⟩

theorem made_styledText (label : DocItemLabel) (formatting : Option Wire) (hyperlink : Bytes) :
    Made w (styledText page w box body p label formatting hyperlink).1
      (styledText page w box body p label formatting hyperlink).2 p := by
  unfold styledText
  generalize hr : (match label with
    | .title => title page w box body p
    | .sectionHeader => heading page w box body p 1
    | .formula => formula page w box body p
    | .code => code page w box body p []
    | .fieldValue => enterText w (w.doc.addTexts (.fieldValue
        (fillTextBase page label (prov page box (charLength body)) body) (ascii "fillable"))) p
    | _ => text page w box body p label) = r
  have hmade : Made w r.1 r.2 p := by
    subst hr
    split
    · exact made_enterText rfl rfl
    · exact made_enterText rfl rfl
    · exact made_enterText rfl rfl
    · exact made_enterText rfl rfl
    · exact made_enterText rfl rfl
    · exact made_text page box body label
  -- the run's formatting touches no reference
  have hnode : ∀ item : BaseTextItem, (item.mapBase (setFormat formatting hyperlink)).node =
    item.node :=
    fun item => by cases item <;> rfl
  have hlinks : ∀ item : BaseTextItem,
      (item.mapBase (setFormat formatting hyperlink)).links = item.links :=
    fun item => by cases item <;> rfl
  exact {
    adds := ⟨hmade.adds.index, fun r' => (modifyText_node hnode r').trans (hmade.adds.node_eq r'),
      hmade.adds.body_eq⟩
    kind := hmade.kind
    links := by rw [← hmade.links]; simp [Document.links, flatMap_modify, hlinks]
    entries := hmade.entries
    body := hmade.body }

end Items

theorem edited_self (linked : Option Bytes) : Edited w w linked :=
  ⟨fun _ => rfl, rfl, fun _ h => .inl h, rfl, rfl⟩

/-- Links of a list in which one item was edited. -/
theorem mem_flatMap_modify {α : Type} {l : List α} {i : Nat} {f : α → α} {g : α → List Bytes}
    {linked : Option Bytes} (h : ∀ a, ∀ x ∈ g (f a), x ∈ g a ∨ linked = some x) :
    ∀ x ∈ (l.modify i f).flatMap g, x ∈ l.flatMap g ∨ linked = some x := by
  intro x hx
  obtain ⟨a, ha, hxa⟩ := List.mem_flatMap.1 hx
  obtain ⟨j, hj⟩ := List.mem_iff_getElem?.1 ha
  rw [List.getElem?_modify, Option.map_eq_map, Option.map_eq_some_iff] at hj
  obtain ⟨b, hb, rfl⟩ := hj
  have hmem : b ∈ l := List.mem_of_getElem? hb
  have hb' : ∀ {y}, y ∈ g b → y ∈ l.flatMap g := fun hy => List.mem_flatMap.2 ⟨b, hmem, hy⟩
  split at hxa
  · exact (h b x hxa).imp_left hb'
  · exact .inl (hb' hxa)

section Edits
variable {i : Nat} {linked : Option Bytes}

/-- An edit of one text item that keeps its references. -/
theorem edited_modifyText {f : BaseTextItem → BaseTextItem}
    (hnode : ∀ item, (f item).node = item.node)
    (hlinks : ∀ item, ∀ x ∈ (f item).links, x ∈ item.links ∨ linked = some x) :
    Edited w (modifyText w i f) linked := by
  refine ⟨modifyText_node hnode, rfl, fun x hx => ?_, rfl, rfl⟩
  · simp only [Document.links, modifyText, List.mem_append] at hx ⊢
    rcases hx with hx | hx
    · exact .inl (.inl hx)
    · exact (mem_flatMap_modify hlinks x hx).imp_left .inr

theorem edited_pictures {f : PictureItem → PictureItem}
    (hnode : ∀ item, (f item).toNode = item.toNode)
    (hlinks : ∀ item, ∀ x ∈ (f item).links, x ∈ item.links ∨ linked = some x) :
    Edited w { w with doc := { w.doc with pictures := w.doc.pictures.modify i f } } linked := by
  refine ⟨fun r => ?_, rfl, fun x hx => ?_, rfl, rfl⟩
  · obtain ⟨k, j⟩ := r
    cases k with
    | picture => simpa [Document.node] using getElem?_modify_node w.doc.pictures f _ id hnode i j
    | _ => rfl
  · simp only [Document.links, List.mem_append] at hx ⊢
    rcases hx with (hx | hx) | hx
    · exact (mem_flatMap_modify hlinks x hx).imp_left fun h => .inl (.inl h)
    · exact .inl (.inl (.inr hx))
    · exact .inl (.inr hx)

theorem edited_tables {f : TableItem → TableItem} (hnode : ∀ item, (f item).toNode = item.toNode)
    (hlinks : ∀ item, ∀ x ∈ (f item).links, x ∈ item.links ∨ linked = some x) :
    Edited w { w with doc := { w.doc with tables := w.doc.tables.modify i f } } linked := by
  refine ⟨fun r => ?_, rfl, fun x hx => ?_, rfl, rfl⟩
  · obtain ⟨k, j⟩ := r
    cases k with
    | table => simpa [Document.node] using getElem?_modify_node w.doc.tables f _ id hnode i j
    | _ => rfl
  · simp only [Document.links, List.mem_append] at hx ⊢
    rcases hx with (hx | hx) | hx
    · exact .inl (.inl (.inl hx))
    · exact (mem_flatMap_modify hlinks x hx).imp_left fun h => .inl (.inr h)
    · exact .inl (.inr hx)

end Edits

/-- A text edit that leaves references, captions and footnotes alone. -/
theorem edited_text {i : Nat} {f : BaseTextItem → BaseTextItem}
    (h : ∀ item, (f item).node = item.node ∧ (f item).links = item.links) :
    Edited w (modifyText w i f) none :=
  edited_modifyText (fun item => (h item).1) fun item _ hx => .inl ((h item).2 ▸ hx)

theorem edited_setText (body : Bytes) (ref : BodyChild) (formatting : Option Wire)
    (hyperlink : Bytes) :
    Edited w (setText w body ref formatting hyperlink) none := by
  unfold setText
  split
  · exact edited_self none
  · exact edited_text fun item => by cases item <;> exact ⟨rfl, rfl⟩

theorem edited_setOrig (ref : BodyChild) (orig : Bytes) : Edited w (setOrig w ref orig) none := by
  unfold setOrig
  split
  · exact edited_self none
  · exact edited_text fun item => by cases item <;> exact ⟨rfl, rfl⟩

theorem edited_setHeadingLevel (i : Nat) (level : Int) :
    Edited w (setHeadingLevel w i level) none :=
  edited_text fun item => by cases item <;> exact ⟨rfl, rfl⟩

theorem edited_setContentLayer (ref : BodyChild) (layer : ContentLayer) :
    Edited w (setContentLayer w ref layer) none := by
  unfold setContentLayer
  split
  · exact edited_text fun item => by cases item <;> exact ⟨rfl, rfl⟩
  · refine ⟨fun r => ?_, rfl, fun _ h => .inl h, rfl, rfl⟩
    obtain ⟨k, j⟩ := r
    cases k with
    | group =>
      have := getElem?_modify_node w.doc.groups (fun group => { group with contentLayer := layer })
        (·.toNode) id (fun _ => rfl) ref.index j
      simpa [Document.node] using this
    | _ => rfl
  · exact edited_self none

theorem edited_linkCaption (owner caption : BodyChild) :
    Edited w (linkCaption w owner caption) (some (bodyChildRef caption)) := by
  unfold linkCaption
  split
  · exact edited_pictures (fun _ => rfl) fun item x hx => by
      simp only [PictureItem.links, List.mem_append, List.mem_singleton, Option.some.injEq] at hx ⊢
      tauto
  · exact edited_tables (fun _ => rfl) fun item x hx => by
      simp only [TableItem.links, List.mem_append, List.mem_singleton, Option.some.injEq] at hx ⊢
      tauto
  · refine edited_modifyText (fun item => by cases item <;> rfl) fun item x hx => ?_
    cases item with
    | code item =>
      simp only [BaseTextItem.links, List.mem_append, List.mem_singleton, Option.some.injEq] at hx ⊢
      tauto
    | _ => exact .inl hx
  · exact edited_self _

theorem edited_linkFootnote (owner footnote : BodyChild) :
    Edited w (linkFootnote w owner footnote) (some (bodyChildRef footnote)) := by
  unfold linkFootnote
  split
  · exact edited_pictures (fun _ => rfl) fun item x hx => by
      simp only [PictureItem.links, List.mem_append, List.mem_singleton, Option.some.injEq] at hx ⊢
      tauto
  · exact edited_tables (fun _ => rfl) fun item x hx => by
      simp only [TableItem.links, List.mem_append, List.mem_singleton, Option.some.injEq] at hx ⊢
      tauto
  · refine edited_modifyText (fun item => by cases item <;> rfl) fun item x hx => ?_
    cases item with
    | code item =>
      simp only [BaseTextItem.links, List.mem_append, List.mem_singleton, Option.some.injEq] at hx ⊢
      tauto
    | _ => exact .inl hx
  · exact edited_self _

end Effects

/-! ## The invariant of a run -/

/-- Before `finish`: the entries are a forest over the document's items, no
item has children yet, and captions and footnotes name text items. -/
structure Inv (w : LayoutWriter) (returned : List BodyChild) (f : Forest BodyChild) : Prop where
  entries : f.created = w.entries
  returned : f.nodes = returned
  items : ∀ r, (w.doc.node r).isSome = true ↔ r ∈ f.nodes
  kinds : ∀ r ∈ f.nodes, r.kind ≠ .keyValue
  blank : ∀ {r node}, w.doc.node r = some node → node.children = []
  doc_body : w.doc.body.children = []
  body : w.body = f.children none
  links : ∀ ref ∈ w.doc.links, ∃ j, ref = bodyChildRef ⟨.text, j⟩ ∧ ⟨.text, j⟩ ∈ f.nodes

theorem inv_init (warnings : Option (List PageWarning)) :
    Inv { warnings := warnings } [] Forest.empty where
  entries := rfl
  returned := rfl
  items := by
    intro r
    obtain ⟨k, i⟩ := r
    cases k <;> simp [Document.node, Forest.empty, Forest.nodes]
  kinds := fun _ h => absurd h List.not_mem_nil
  blank := by
    intro r node h
    obtain ⟨k, i⟩ := r
    cases k <;> simp [Document.node] at h
  doc_body := rfl
  body := rfl
  links := fun _ h => absurd h (by simp [Document.links])

section Steps
variable {w w' : LayoutWriter} {returned : List BodyChild} {f : Forest BodyChild}

theorem Made.inv {r : BodyChild} {p : Option BodyChild} (h : Made w w' r p)
    (hinv : Inv w returned f)
    (hp : ∀ q, p = some q → q ∈ returned) : ∃ f', Inv w' (returned ++ [r]) f' := by
  have hfresh : r ∉ f.nodes := by
    intro hr
    have := (hinv.items r).2 hr
    rw [h.adds.fresh] at this
    cases this
  refine ⟨f.add r p hfresh (by rwa [hinv.returned]), ?_⟩
  have hnodes : (f.add r p hfresh (by rwa [hinv.returned])).nodes = f.nodes ++ [r] := by
    simp [Forest.nodes, Forest.add]
  refine ⟨?_, ?_, fun r' => ?_, fun r' hr' => ?_, fun {r' node} hr' => ?_, ?_, ?_,
    fun ref href => ?_⟩
  · rw [h.entries, ← hinv.entries]
    rfl
  · rw [hnodes, hinv.returned]
  · rw [hnodes, h.adds.node_eq]
    by_cases he : r' = r
    · simp [he]
    · simp [he, hinv.items]
  · rw [hnodes] at hr'
    rcases List.mem_append.1 hr' with hr' | hr'
    · exact hinv.kinds r' hr'
    · rw [List.mem_singleton.1 hr']
      exact h.kind
  · rw [h.adds.node_eq] at hr'
    split at hr'
    · cases hr'
      rfl
    · exact hinv.blank hr'
  · rw [h.adds.body_eq, hinv.doc_body]
  · rw [h.body, hinv.body]
    by_cases hnone : p = none <;> simp [Forest.children, Forest.add, hnone]
  · rw [h.links] at href
    obtain ⟨j, he, hj⟩ := hinv.links ref href
    exact ⟨j, he, by rw [hnodes]; exact List.mem_append_left _ hj⟩

theorem Edited.inv {linked : Option Bytes} (h : Edited w w' linked) (hinv : Inv w returned f)
    (hlinked : ∀ ref, linked = some ref →
      ∃ j, ref = bodyChildRef ⟨.text, j⟩ ∧ ⟨.text, j⟩ ∈ returned) :
    Inv w' returned f where
  entries := hinv.entries.trans h.entries.symm
  returned := hinv.returned
  items := fun r => by rw [h.node]; exact hinv.items r
  kinds := hinv.kinds
  blank := fun {r node} hr => hinv.blank (by rw [← h.node]; exact hr)
  doc_body := by rw [h.doc_body]; exact hinv.doc_body
  body := h.body.trans hinv.body
  links := by
    intro ref href
    rcases h.links ref href with href | href
    · exact hinv.links ref href
    · rw [hinv.returned]
      exact hlinked ref href

/-- An item passed as a caption or footnote is a text item. -/
theorem linked_text {linked : BodyChild} (h : linked ∈ returned) (hk : linked.kind = .text) :
    ∀ ref, some (bodyChildRef linked) = some ref →
      ∃ j, ref = bodyChildRef ⟨.text, j⟩ ∧ ⟨.text, j⟩ ∈ returned := by
  obtain ⟨k, j⟩ := linked
  cases hk
  rintro ref ⟨⟩
  exact ⟨j, rfl, h⟩

variable (page : PageContext) (raster : PageRaster) (byteSizeLong : TableCell → Nat)

/-- One operation, from any state of a valid run. -/
theorem apply_inv (hinv : Inv w returned f) (op : Op) (hvalid : op.Valid returned) :
    ∃ f', Inv (apply page raster byteSizeLong w op).1
      (returned ++ (apply page raster byteSizeLong w op).2.toList) f' := by
  have hnone : ∀ ref, (none : Option Bytes) = some ref →
      ∃ j, ref = bodyChildRef ⟨.text, j⟩ ∧ ⟨.text, j⟩ ∈ returned := by
    rintro ref ⟨⟩
  cases op with
  | text label box body p => exact (made_text page box body label).inv hinv hvalid
  | title box body p => exact Made.inv (made_enterText rfl rfl) hinv hvalid
  | heading level box body p => exact Made.inv (made_enterText rfl rfl) hinv hvalid
  | formula box body p => exact Made.inv (made_enterText rfl rfl) hinv hvalid
  | code box body languageRaw p => exact Made.inv (made_enterText rfl rfl) hinv hvalid
  | listItem box body enumerated marker p => exact Made.inv (made_enterText rfl rfl) hinv hvalid
  | listGroup p => exact (made_group _ _).inv hinv hvalid
  | group name label p => exact (made_group name label).inv hinv hvalid
  | fieldRegion box p => exact (made_fieldRegion page box).inv hinv hvalid
  | inlineGroup p => exact (made_group _ _).inv hinv hvalid
  | styledText label box body formatting hyperlink p =>
    exact (made_styledText page box body label formatting hyperlink).inv hinv hvalid
  | picture box p => exact (made_picture page raster box).inv hinv hvalid
  | table box cells p => exact (made_table page byteSizeLong box cells).inv hinv hvalid
  | setText ref body formatting hyperlink =>
    exact ⟨f, by simpa [apply] using (edited_setText body ref formatting hyperlink).inv hinv hnone⟩
  | setOrig ref orig => exact ⟨f, by simpa [apply] using (edited_setOrig ref orig).inv hinv hnone⟩
  | setHeadingLevel i level =>
    exact ⟨f, by simpa [apply] using (edited_setHeadingLevel i level).inv hinv hnone⟩
  | setContentLayer ref layer =>
    exact ⟨f, by simpa [apply] using (edited_setContentLayer ref layer).inv hinv hnone⟩
  | linkCaption owner caption =>
    exact ⟨f, by simpa [apply] using
      (edited_linkCaption owner caption).inv hinv (linked_text hvalid.2.1 hvalid.2.2)⟩
  | linkFootnote owner footnote =>
    exact ⟨f, by simpa [apply] using
      (edited_linkFootnote owner footnote).inv hinv (linked_text hvalid.2.1 hvalid.2.2)⟩

/-- A whole run. -/
theorem run_inv (ops : List Op) :
    ∀ {w : LayoutWriter} {returned : List BodyChild} {f : Forest BodyChild},
    Inv w returned f → ValidRun page raster byteSizeLong w returned ops →
    ∃ f', Inv (run page raster byteSizeLong w returned ops).1
      (run page raster byteSizeLong w returned ops).2 f' := by
  induction ops with
  | nil => intro w returned f hinv _; exact ⟨f, hinv⟩
  | cons op ops ih =>
    intro w returned f hinv hvalid
    obtain ⟨f', hinv'⟩ := apply_inv page raster byteSizeLong hinv op hvalid.1
    exact ih hinv' hvalid.2

end Steps

/-! ## What finishing stamps -/

/-- What a reader sees of an item's own references. -/
def refs (node : Node) : Bytes × Option Bytes := (node.selfRef, node.parent)

section Finish
variable {child parent : BodyChild}

theorem stampEntry_node (hc : child.kind ≠ .keyValue) (hp : parent.kind ≠ .keyValue)
    (doc : Document)
    (r : BodyChild) : (stampEntry doc (child, some parent)).node r =
      ((doc.node r).map fun node => if r = child then
        node.stamp (bodyChildRef child) (bodyChildRef parent) else node).map fun node =>
        if r = parent then node.addChild (bodyChildRef child) else node := by
  unfold stampEntry
  simp only [if_neg hc]
  rw [addItemChild_node _ _ _ _ hp, stamp_node]
  cases doc.node r <;> simp only [Option.map_none, Option.map_some] <;> split_ifs <;> rfl

theorem stampEntry_refs (hc : child.kind ≠ .keyValue) (hp : parent.kind ≠ .keyValue)
    (doc : Document)
    (r : BodyChild) : ((stampEntry doc (child, some parent)).node r).map refs =
      if r = child then (doc.node r).map fun _ => (bodyChildRef child, some (bodyChildRef parent))
      else (doc.node r).map refs := by
  rw [stampEntry_node hc hp]
  cases doc.node r <;> simp only [Option.map_none, Option.map_some] <;> split_ifs <;> rfl

theorem stampEntry_children (hc : child.kind ≠ .keyValue) (hp : parent.kind ≠ .keyValue)
    (doc : Document) (r : BodyChild) :
    ((stampEntry doc (child, some parent)).node r).map Node.children =
      ((doc.node r).map Node.children).map
        (· ++ if r = parent then [bodyChildRef child] else []) := by
  rw [stampEntry_node hc hp]
  cases doc.node r with
  | none => rfl
  | some node =>
    simp only [Option.map_some]
    split_ifs <;> simp [Node.stamp, Node.addChild]

/-- The entries name no key-value item. -/
def NoKeyValue (l : List (BodyChild × Option BodyChild)) : Prop :=
  ∀ e ∈ l, e.1.kind ≠ .keyValue ∧ ∀ q, e.2 = some q → q.kind ≠ .keyValue

/-- Every item gets the refs of the entries under it. -/
theorem stampEntries_children (l : List (BodyChild × Option BodyChild)) : NoKeyValue l →
    ∀ (doc : Document) (r : BodyChild), ((l.foldl stampEntry doc).node r).map Node.children =
      ((doc.node r).map Node.children).map
        (· ++ (l.filter fun e => decide (e.2 = some r)).map fun e => bodyChildRef e.1) := by
  induction l with
  | nil =>
    intro _ doc r
    rw [List.foldl_nil]
    cases doc.node r <;> simp
  | cons e l ih =>
    intro h doc r
    obtain ⟨child, parent⟩ := e
    have htail :=
      ih (fun e he => h e (List.mem_cons_of_mem _ he)) (stampEntry doc (child, parent)) r
    rw [List.foldl_cons, htail]
    cases parent with
    | none => simp [stampEntry]
    | some parent =>
      obtain ⟨hc, hp⟩ := h (child, some parent) List.mem_cons_self
      rw [stampEntry_children hc (hp parent rfl)]
      by_cases hr : r = parent
      · subst hr
        cases doc.node r <;> simp
      · have hr' : ¬ parent = r := fun e => hr e.symm
        cases doc.node r <;> simp [hr, hr']

/-- An item under the body keeps the refs it has. -/
theorem stampEntries_keep {r : BodyChild} (l : List (BodyChild × Option BodyChild)) : NoKeyValue l →
    (∀ p, (r, some p) ∉ l) → ∀ doc : Document,
    ((l.foldl stampEntry doc).node r).map refs = (doc.node r).map refs := by
  induction l with
  | nil => intro _ _ doc; rfl
  | cons e l ih =>
    intro h hr doc
    obtain ⟨child, parent⟩ := e
    have htail := ih (fun e he => h e (List.mem_cons_of_mem _ he))
      (fun p hp => hr p (List.mem_cons_of_mem _ hp)) (stampEntry doc (child, parent))
    rw [List.foldl_cons, htail]
    cases parent with
    | none => rfl
    | some parent =>
      obtain ⟨hc, hp⟩ := h (child, some parent) List.mem_cons_self
      have hne : r ≠ child := fun e => hr parent (e ▸ List.mem_cons_self)
      rw [stampEntry_refs hc (hp parent rfl), if_neg hne]

/-- An item under another is stamped with its own ref and its parent's. -/
theorem stampEntries_stamp {r p : BodyChild} (l : List (BodyChild × Option BodyChild)) :
    NoKeyValue l →
    (l.map Prod.fst).Nodup → (r, some p) ∈ l → ∀ doc : Document, (doc.node r).isSome = true →
    ((l.foldl stampEntry doc).node r).map refs = some (bodyChildRef r, some (bodyChildRef p)) := by
  induction l with
  | nil => intro _ _ h; cases h
  | cons e l ih =>
    intro h hnodup hmem doc hdoc
    rw [List.map_cons, List.nodup_cons] at hnodup
    have htail : NoKeyValue l := fun e he => h e (List.mem_cons_of_mem _ he)
    rw [List.foldl_cons]
    rcases List.mem_cons.1 hmem with rfl | hmem
    · obtain ⟨hc, hp⟩ := h (r, some p) List.mem_cons_self
      have hlast : ∀ q, (r, some q) ∉ l := fun q hq =>
        hnodup.1 (List.mem_map.2 ⟨(r, some q), hq, rfl⟩)
      rw [stampEntries_keep l htail hlast, stampEntry_refs hc (hp p rfl), if_pos rfl]
      obtain ⟨node, hnode⟩ := Option.isSome_iff_exists.1 hdoc
      rw [hnode]
      rfl
    · apply ih htail hnodup.2 hmem
      obtain ⟨child, parent⟩ := e
      cases parent with
      | none => exact hdoc
      | some parent =>
        obtain ⟨hc, hp⟩ := h (child, some parent) List.mem_cons_self
        rw [stampEntry_node hc (hp parent rfl)]
        simpa using hdoc

theorem stampEntries_body (l : List (BodyChild × Option BodyChild)) : ∀ doc : Document,
    (l.foldl stampEntry doc).body = doc.body ∧ (l.foldl stampEntry doc).links = doc.links := by
  induction l with
  | nil => intro doc; exact ⟨rfl, rfl⟩
  | cons e l ih =>
    intro doc
    obtain ⟨h1, h2⟩ := ih (stampEntry doc e)
    rw [List.foldl_cons, h1, h2]
    unfold stampEntry
    split
    · exact ⟨rfl, rfl⟩
    · split <;> simp [addItemChild_links, stampItem_links]

end Finish

/-- Finishing a run makes its document represent the entries' forest. -/
theorem finish_represents {w : LayoutWriter} {returned : List BodyChild} {f : Forest BodyChild}
    (page : PageContext) (hinv : Inv w returned f) :
    Represents (w.entries.foldl stampEntry (finalizeDocument w.doc page w.body)) f := by
  have hkv : NoKeyValue w.entries := by
    rw [← hinv.entries]
    rintro ⟨r, p⟩ hmem
    refine ⟨hinv.kinds r (Forest.mem_nodes.2 ⟨p, hmem⟩), ?_⟩
    rintro q rfl
    exact hinv.kinds q (Forest.parent_mem hmem)
  have hnodup : (w.entries.map Prod.fst).Nodup := hinv.entries ▸ f.nodup
  have hfinal := finalize_node w.doc page w.body
  have hsome : ∀ r, ((finalizeDocument w.doc page w.body).node r).isSome =
    (w.doc.node r).isSome := by
    intro r
    rw [hfinal]
    split <;> simp
  have hchildren : ∀ r, ((finalizeDocument w.doc page w.body).node r).map Node.children =
      (w.doc.node r).map fun _ => [] := by
    intro r
    rw [hfinal]
    cases hr : w.doc.node r with
    | none => simp
    | some node => split <;> simp [Node.stamp, hinv.blank hr]
  have hmap := stampEntries_children w.entries hkv (finalizeDocument w.doc page w.body)
  refine ⟨fun r => ?_, fun {r p} hr => ?_, fun {p} hp => ?_⟩
  · rw [← hinv.items r, ← Option.isSome_map (f := Node.children), hmap]
    simp [hsome]
  · have hdoc : (w.doc.node r).isSome = true := (hinv.items r).2 (Forest.mem_nodes.2 ⟨p, hr⟩)
    have hrefs :
      ((w.entries.foldl stampEntry (finalizeDocument w.doc page w.body)).node r).map refs =
        some (bodyChildRef r, some (parentRef p)) := by
      cases p with
      | none =>
        have hkeep : ∀ q, (r, some q) ∉ w.entries := fun q hq => by
          rw [← hinv.entries] at hq
          cases Forest.parent_unique hr hq
        obtain ⟨node, hnode⟩ := Option.isSome_iff_exists.1 hdoc
        rw [stampEntries_keep w.entries hkv hkeep, hfinal, hinv.body,
          if_pos (Forest.mem_children.2 hr), hnode]
        rfl
      | some p =>
        rw [hinv.entries] at hr
        exact stampEntries_stamp w.entries hkv hnodup hr _ ((hsome r).trans hdoc)
    obtain ⟨node, hnode, he⟩ := Option.map_eq_some_iff.1 hrefs
    exact ⟨node, hnode, congrArg Prod.fst he, congrArg Prod.snd he⟩
  · cases p with
    | none =>
      have hbody := (stampEntries_body w.entries (finalizeDocument w.doc page w.body)).1
      rw [Document.childrenOf, hbody, finalize_children, hinv.doc_body, List.nil_append, hinv.body]
    | some q =>
      have hq : (w.doc.node q).isSome = true := by
        have := hp q rfl
        rw [← Option.isSome_map (f := Node.children), hmap] at this
        simpa [hsome] using this
      obtain ⟨node, hnode⟩ := Option.isSome_iff_exists.1 hq
      rw [Document.childrenOf, hmap, hchildren, hnode, Forest.children, hinv.entries]
      simp

/-- **The references of a finished page are a tree.** After any run of
operations, each on the body or on items returned before, `finish` leaves a
document whose items are those returned, whose references are a tree in
creation order, and whose captions and footnotes name text items. -/
theorem layout_refTree (page : PageContext) (raster : PageRaster) (byteSizeLong : TableCell → Nat)
    (warnings : Option (List PageWarning)) (ops : List Op) (formatName : Bytes) (allowEmpty : Bool)
    (hvalid : ValidRun page raster byteSizeLong { warnings := warnings } [] ops)
    {doc : Document} {warnings' : Option (List PageWarning)}
    (hfinish : finish page raster (run page raster byteSizeLong { warnings := warnings } [] ops).1
      formatName allowEmpty = .ok (doc, warnings')) :
    RefTree doc (run page raster byteSizeLong { warnings := warnings } [] ops).2 ∧
    (∀ r, r.index < doc.size r.kind ↔
      r ∈ (run page raster byteSizeLong { warnings := warnings } [] ops).2) ∧
    (∀ ref ∈ doc.links, ∃ j, ref = bodyChildRef ⟨.text, j⟩ ∧ j < doc.texts.length) := by
  obtain ⟨f, hinv⟩ := run_inv page raster byteSizeLong ops (inv_init warnings) hvalid
  generalize run page raster byteSizeLong { warnings := warnings } [] ops = r at *
  have hrep := finish_represents page hinv
  have hlinks : (r.1.entries.foldl stampEntry (finalizeDocument r.1.doc page r.1.body)).links =
      r.1.doc.links := by
    rw [(stampEntries_body _ _).2, finalize_links]
  unfold finish at hfinish
  split at hfinish
  · cases hfinish
  · cases hfinish
    refine ⟨hinv.returned ▸ RefTree.of_represents hrep, fun r' => ?_, fun ref href => ?_⟩
    · rw [← node_isSome, hrep.items, hinv.returned]
    · rw [hlinks] at href
      obtain ⟨j, he, hj⟩ := hinv.links ref href
      exact ⟨j, he, (node_isSome _ ⟨.text, j⟩).1 ((hrep.items _).2 hj)⟩

/-- A list with an item, a picture inside the item, and the picture's caption
in the body. -/
def sampleOps : List Op := [
  .listGroup none,
  .listItem none (ascii "item") false [] (some ⟨.group, 0⟩),
  .picture none (some ⟨.text, 0⟩),
  .text .caption none (ascii "Fig. 1") none,
  .linkCaption ⟨.picture, 0⟩ ⟨.text, 1⟩]

theorem layout_refTree_sample : ∃ doc warnings,
    finish samplePage sampleRaster (run samplePage sampleRaster (fun cell => cell.text.length + 20)
      { warnings := some [] } [] sampleOps).1 (ascii "Chandra") false = .ok (doc, warnings) ∧
    RefTree doc [⟨.group, 0⟩, ⟨.text, 0⟩, ⟨.picture, 0⟩, ⟨.text, 1⟩] ∧
    (∀ r, r.index < doc.size r.kind ↔
      r ∈ [(⟨.group, 0⟩ : BodyChild), ⟨.text, 0⟩, ⟨.picture, 0⟩, ⟨.text, 1⟩]) ∧
    (∀ ref ∈ doc.links, ∃ j, ref = bodyChildRef ⟨.text, j⟩ ∧ j < doc.texts.length) := by
  have hvalid : ValidRun samplePage sampleRaster (fun cell => cell.text.length + 20)
      { warnings := some [] } [] sampleOps := by
    refine ⟨?_, ?_, ?_, ?_, ⟨?_, ?_, rfl⟩, trivial⟩
    · rintro q ⟨⟩
    · rintro q ⟨⟩
      decide
    · rintro q ⟨⟩
      decide
    · rintro q ⟨⟩
    · decide
    · decide
  exact ⟨_, _, rfl,
    layout_refTree samplePage sampleRaster _ (some []) sampleOps (ascii "Chandra") false
    hvalid rfl⟩

end LayoutWriter

end VlmConvert.L3

import VlmConvert.L2Table.OtslGrid
import VlmConvert.L3Document.Doctags
import VlmConvert.L3Document.PictureData

/-!
# The items of a page

What every item of a page fragment shows, whatever the format it was read
from: its provenance names the page, its sources are the page's, and its tables
and charts are within the table caps (`src/mapping/builder.h:29-50, 153-223`).

Results: `fillSpanTable_inCaps`, `fillTableData_inCaps` and
`parseOtslGrid_inCaps`, each filler of a table stays within the caps;
`ofPage_finalize` and its kin, adding, editing and stamping items keep a
document the page's.
-/
namespace VlmConvert.L2

open Bytes

/-! ## Tables within the caps -/

/-- The shape is within the caps, and the grid is the whole rectangle unless it
was left out. -/
structure InCaps (data : TableData) : Prop where
  rows : data.numRows ≤ kMaxTableRows
  cols : data.numCols ≤ kMaxTableCols
  cells : data.numRows * data.numCols ≤ kMaxTableCells
  grid : data.grid = [] ∨
    (data.grid.length = data.numRows ∧ ∀ row ∈ data.grid, row.length = data.numCols)

theorem inCaps_empty : InCaps ⟨0, 0, [], []⟩ :=
  ⟨Nat.zero_le _, Nat.zero_le _, Nat.zero_le _, Or.inl rfl⟩

theorem fillGrid_shape (numRows numCols : Nat) (cells : List TableCell) :
    (fillGrid numRows numCols cells).length = numRows ∧
      ∀ row ∈ fillGrid numRows numCols cells, row.length = numCols := by
  have hempty : ∀ row ∈ emptyGrid numRows numCols, row.length = numCols := by
    intro row hrow
    obtain ⟨r, -, rfl⟩ := List.mem_map.1 hrow
    rw [List.length_map, List.length_range]
  obtain ⟨hlen, hrows⟩ := stamps_shape cells hempty
  exact ⟨hlen.trans (by rw [emptyGrid, List.length_map, List.length_range]), hrows⟩

/-- A shape within the caps, with a grid that was filled if it fits. -/
theorem inCaps_filled {numRows numCols : Nat} {cells stamped : List TableCell} (fits : Bool)
    (hrows : numRows ≤ kMaxTableRows) (hcols : numCols ≤ kMaxTableCols)
    (hcells : numRows * numCols ≤ kMaxTableCells) :
    InCaps ⟨numRows, numCols, cells, if fits then fillGrid numRows numCols stamped else []⟩ := by
  refine ⟨hrows, hcols, hcells, ?_⟩
  cases fits with
  | true => exact Or.inr (fillGrid_shape numRows numCols stamped)
  | false => exact Or.inl rfl

theorem fillSpanTable_inCaps (byteSizeLong : TableCell → Nat) (cells : List SpanCell) :
    InCaps (fillSpanTable byteSizeLong cells).1 := by
  obtain ⟨hrows, hcols, hcells⟩ := keptTableShape_caps
    ((cells.map fun c => c.row + c.rowSpan).foldl max 0)
      ((cells.map fun c => c.col + c.colSpan).foldl max 0)
  exact inCaps_filled _ hrows hcols hcells

theorem fillTableData_inCaps (rows : List (List Bytes)) (headerRows : Nat) :
    InCaps (fillTableData rows headerRows).1 := by
  obtain ⟨hrows, hcols, hcells⟩ := keptTableShape_caps rows.length (widest rows)
  have hwidth := (keptWidth_spec rows (keptTableShape rows.length (widest rows))).1
  refine ⟨hrows, hwidth.trans hcols, (Nat.mul_le_mul_left _ hwidth).trans hcells, Or.inr ?_⟩
  unfold fillTableData
  refine ⟨by rw [List.length_map, List.length_range], fun row hrow => ?_⟩
  obtain ⟨r, -, rfl⟩ := List.mem_map.1 hrow
  rw [List.length_map, List.length_range]

theorem parseOtslGrid_inCaps {byteSizeLong : TableCell → Nat} {body : Bytes} {data : TableData}
    {cut : TableCut}
    (h : parseOtslGrid byteSizeLong body = some (data, cut)) : InCaps data := by
  obtain ⟨hscanRows, hscanCols, hkept⟩ := scanRows_spec body
  obtain ⟨hrows, hcols, hcells⟩ := keptRegion_caps (otslRows body)
  unfold parseOtslGrid at h
  dsimp only at h
  split at h
  · cases h
  · rw [hscanRows, hscanCols, hkept] at h
    cases h
    exact inCaps_filled _ hrows hcols hcells

end VlmConvert.L2

namespace VlmConvert.L3

open Bytes L2

/-! ## What an item shows -/

def BaseTextItem.source : BaseTextItem → List SourceType
  | .title base | .sectionHeader base _ | .listItem base _ _ | .formula base | .text base
  | .fieldHeading base | .fieldValue base _ => base.source
  | .code item => item.source

/-- The chart data of a picture, in its metadata and its annotations. -/
def PictureItem.charts (item : PictureItem) : List TableData :=
  (item.info.tabularChart.map Prod.snd).toList ++ item.annotations.filterMap fun
    | .tabularChart _ _ data => some data
    | _ => none

/-- Places are on the page, and the sources are the page's. -/
structure PageContext.Owns (page : PageContext) (prov : List ProvenanceItem)
    (source : List SourceType) :
    Prop where
  located : ∀ place ∈ prov, place.pageNo = page.pageNo.toInt32
  sourced : source = addSources page

def BaseTextItem.OfPage (page : PageContext) (item : BaseTextItem) : Prop :=
  item.prov.length = 1 ∧ page.Owns item.prov item.source

def PictureItem.OfPage (page : PageContext) (item : PictureItem) : Prop :=
  item.prov.length = 1 ∧ page.Owns item.prov item.source ∧ ∀ data ∈ item.charts, InCaps data

def TableItem.OfPage (page : PageContext) (item : TableItem) : Prop :=
  item.prov.length = 1 ∧ page.Owns item.prov item.source ∧ ∀ data ∈ item.data, InCaps data

/-- A region and its cells have a place when the response gives one. -/
def KeyValueItem.OfPage (page : PageContext) (item : KeyValueItem) : Prop :=
  page.Owns item.prov item.source ∧
    ∀ cell ∈ item.cells, ∀ place ∈ cell.prov, place.pageNo = page.pageNo.toInt32

def FieldRegionItem.OfPage (page : PageContext) (item : FieldRegionItem) : Prop :=
  item.prov.length = 1 ∧ page.Owns item.prov item.source

/-- Every item is the page's. -/
structure Document.OfPage (page : PageContext) (doc : Document) : Prop where
  texts : ∀ item ∈ doc.texts, item.OfPage page
  pictures : ∀ item ∈ doc.pictures, item.OfPage page
  tables : ∀ item ∈ doc.tables, item.OfPage page
  keyValueItems : ∀ item ∈ doc.keyValueItems, item.OfPage page
  fieldRegions : ∀ item ∈ doc.fieldRegions, item.OfPage page

theorem PageContext.owns_prov (page : PageContext) (box : BoundingBox) (chars : Nat) :
    page.Owns [provWithCharspan page box chars] (addSources page) :=
  ⟨fun _ hplace => by rw [List.mem_singleton.1 hplace]; rfl, rfl⟩

section Rules
variable {page : PageContext} {doc : Document}

/-! ## Adding and editing -/

theorem ofPage_empty : ({} : Document).OfPage page :=
  ⟨by simp, by simp, by simp, by simp, by simp⟩

theorem forall_mem_snoc {α : Type} {P : α → Prop} {l : List α} {a : α} (h : ∀ x ∈ l, P x)
    (ha : P a) :
    ∀ x ∈ l ++ [a], P x := by
  intro x hx
  rcases List.mem_append.1 hx with hx | hx
  · exact h x hx
  · rw [List.mem_singleton.1 hx]
    exact ha

theorem forall_mem_modify {α : Type} {P : α → Prop} {l : List α} {f : α → α} (h : ∀ x ∈ l, P x)
    (hf : ∀ x, P x → P (f x)) (i : Nat) : ∀ x ∈ l.modify i f, P x := by
  intro x hx
  rcases mem_modify hx with hx | ⟨y, hy, rfl⟩
  · exact h x hx
  · exact hf y (h y hy)

theorem ofPage_addTexts {item : BaseTextItem} (h : doc.OfPage page) (hitem : item.OfPage page) :
    (doc.addTexts item).OfPage page :=
  { h with texts := forall_mem_snoc h.texts hitem }

theorem ofPage_addPictures {item : PictureItem} (h : doc.OfPage page) (hitem : item.OfPage page) :
    (doc.addPictures item).OfPage page :=
  { h with pictures := forall_mem_snoc h.pictures hitem }

theorem ofPage_addTables {item : TableItem} (h : doc.OfPage page) (hitem : item.OfPage page) :
    (doc.addTables item).OfPage page :=
  { h with tables := forall_mem_snoc h.tables hitem }

theorem ofPage_addGroups (item : GroupItem) (h : doc.OfPage page) :
    (doc.addGroups item).OfPage page :=
  { h with }

theorem ofPage_addKeyValueItems {item : KeyValueItem} (h : doc.OfPage page)
    (hitem : item.OfPage page) :
    (doc.addKeyValueItems item).OfPage page :=
  { h with keyValueItems := forall_mem_snoc h.keyValueItems hitem }

theorem ofPage_addFieldRegions {item : FieldRegionItem} (h : doc.OfPage page)
    (hitem : item.OfPage page) :
    (doc.addFieldRegions item).OfPage page :=
  { h with fieldRegions := forall_mem_snoc h.fieldRegions hitem }

theorem ofPage_modifyTexts {f : BaseTextItem → BaseTextItem} (h : doc.OfPage page)
    (hf : ∀ item, item.OfPage page → (f item).OfPage page) (i : Nat) :
    ({ doc with texts := doc.texts.modify i f } : Document).OfPage page :=
  { h with texts := forall_mem_modify h.texts hf i }

theorem ofPage_modifyPictures {f : PictureItem → PictureItem} (h : doc.OfPage page)
    (hf : ∀ item, item.OfPage page → (f item).OfPage page) (i : Nat) :
    ({ doc with pictures := doc.pictures.modify i f } : Document).OfPage page :=
  { h with pictures := forall_mem_modify h.pictures hf i }

theorem ofPage_modifyTables {f : TableItem → TableItem} (h : doc.OfPage page)
    (hf : ∀ item, item.OfPage page → (f item).OfPage page) (i : Nat) :
    ({ doc with tables := doc.tables.modify i f } : Document).OfPage page :=
  { h with tables := forall_mem_modify h.tables hf i }

/-- A base with another place on the page. -/
theorem ofPage_mapBase {f : TextItemBase → TextItemBase} {item : BaseTextItem}
    (h : item.OfPage page)
    (hprov : ∀ base, (f base).prov.map ProvenanceItem.pageNo = base.prov.map ProvenanceItem.pageNo)
    (hsource : ∀ base, (f base).source = base.source) : (item.mapBase f).OfPage page := by
  have hbase : ∀ base : TextItemBase, base.prov.length = 1 ∧ page.Owns base.prov base.source →
      (f base).prov.length = 1 ∧ page.Owns (f base).prov (f base).source := by
    rintro base ⟨hone, hlocated, hsourced⟩
    have hlength := congrArg List.length (hprov base)
    rw [List.length_map, List.length_map] at hlength
    refine ⟨hlength.trans hone, fun place hplace => ?_, (hsource base).trans hsourced⟩
    have hmem : place.pageNo ∈ base.prov.map ProvenanceItem.pageNo := by
      rw [← hprov base]
      exact List.mem_map_of_mem hplace
    obtain ⟨place', hplace', heq⟩ := List.mem_map.1 hmem
    rw [← heq]
    exact hlocated place' hplace'
  cases item with
  | code item => exact h
  | _ => exact hbase _ h

/-- A new text item. -/
theorem ofPage_textBase (label : DocItemLabel) {place : ProvenanceItem} (text : Bytes)
    (hplace : place.pageNo = page.pageNo.toInt32) :
    (fillTextBase page label place text).prov.length = 1 ∧
      page.Owns (fillTextBase page label place text).prov
        (fillTextBase page label place text).source :=
  ⟨rfl, fun p hp => by rw [List.mem_singleton.1 hp]; exact hplace, rfl⟩

/-! ## Stamping -/

@[simp] theorem ofPage_stampTextItem (item : BaseTextItem) (selfRef parent : Bytes) :
    (stampTextItem item selfRef parent).OfPage page ↔ item.OfPage page := by
  cases item <;> rfl

@[simp] theorem ofPage_addChild (item : BaseTextItem) (ref : Bytes) :
    (item.addChild ref).OfPage page ↔ item.OfPage page := by
  cases item <;> rfl

theorem ofPage_stampItem (child : BodyChild) (parent : Bytes) (h : doc.OfPage page) :
    (stampItem doc child parent).OfPage page := by
  unfold stampItem
  split
  · exact ofPage_modifyTexts h (fun item => (ofPage_stampTextItem item _ _).2) _
  · refine ofPage_modifyPictures h ?_ _
    exact fun _ hitem => hitem
  · refine ofPage_modifyTables h ?_ _
    exact fun _ hitem => hitem
  · refine { h with keyValueItems := forall_mem_modify h.keyValueItems ?_ _ }
    exact fun _ hitem => hitem
  · exact { h with }
  · refine { h with fieldRegions := forall_mem_modify h.fieldRegions ?_ _ }
    exact fun _ hitem => hitem

theorem ofPage_addItemChild (parent : BodyChild) (ref : Bytes) (h : doc.OfPage page) :
    (addItemChild doc parent ref).OfPage page := by
  unfold addItemChild
  split
  · exact { h with }
  · refine ofPage_modifyPictures h ?_ _
    exact fun _ hitem => hitem
  · refine ofPage_modifyTables h ?_ _
    exact fun _ hitem => hitem
  · refine { h with fieldRegions := forall_mem_modify h.fieldRegions ?_ _ }
    exact fun _ hitem => hitem
  · exact ofPage_modifyTexts h (fun item => (ofPage_addChild item ref).2) _
  · exact h

/-- The body's children and the page entry change no item. -/
theorem ofPage_finalize (order : List BodyChild) (h : doc.OfPage page) :
    (finalizeDocument doc page order).OfPage page := by
  have hfold : ∀ (order : List BodyChild) (doc : Document), doc.OfPage page →
      (order.foldl
        (fun doc child => addBodyChild (stampItem doc child bodyRef) (bodyChildRef child))
        doc).OfPage page := by
    intro order
    induction order with
    | nil => exact fun _ h => h
    | cons child order ih => exact fun doc h => ih _ { ofPage_stampItem child bodyRef h with }
  have hfinal := hfold order (startBody doc page) { h with }
  exact { hfinal with }

end Rules

/-! ## The pages of a document -/

theorem pages_stampItem (doc : Document) (child : BodyChild) (parent : Bytes) :
    (stampItem doc child parent).pages = doc.pages := by
  unfold stampItem
  split
  all_goals rfl

theorem pages_addItemChild (doc : Document) (parent : BodyChild) (ref : Bytes) :
    (addItemChild doc parent ref).pages = doc.pages := by
  unfold addItemChild
  split
  all_goals rfl

/-- A document without pages gets the one it was read from. -/
theorem pages_finalize {doc : Document} (page : PageContext) (order : List BodyChild)
    (h : doc.pages = []) :
    (finalizeDocument doc page order).pages = [⟨page.pageNo.toInt32, page.width, page.height⟩] := by
  have hfold : ∀ (order : List BodyChild) (doc : Document),
      (order.foldl
        (fun doc child => addBodyChild (stampItem doc child bodyRef) (bodyChildRef child))
        doc).pages = doc.pages := by
    intro order
    induction order with
    | nil => exact fun _ => rfl
    | cons child order ih => exact fun doc => (ih _).trans (pages_stampItem doc child bodyRef)
  unfold finalizeDocument setPage
  dsimp only
  rw [hfold order (startBody doc page), startBody, h]
  rfl

end VlmConvert.L3

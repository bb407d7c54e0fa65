import VlmConvert.L2Table.HtmlLayout
import VlmConvert.L2Table.Grid

/-!
# Span tables and their rich cells

`fillSpanTable` on any cells in row-major order, overlapping or past the
caps, and `attachRichRefs` (`src/mapping/chandra.cpp:641-670`), which joins
the refs of the cells' groups back by start offset once the grid holds
copies.

The join narrows the anchors of all source cells to `int32_t`, those past the
caps included: anchors that fit are told apart, larger ones meet a kept
cell's (`attachRichRefs_wraps`).

Result: `spanTable_spec`.
-/
namespace VlmConvert.L2

/-! ## Rich cells -/

/-- A table cell with its `ref`, unset or not. -/
structure RichCell where
  cell : TableCell
  ref : Option Bytes
  deriving DecidableEq, Repr

structure RichTable where
  tableCells : List RichCell
  grid : List (List RichCell)
  deriving DecidableEq, Repr

/-- `static_cast<int32_t>` of an anchor. -/
def anchorKey (row col : Nat) : Int32 × Int32 := (Int32.ofNat row, Int32.ofNat col)

/-- The map `by_anchor`, its last writer first.
mirrors src/mapping/chandra.cpp:645-651 -/
def byAnchor (cells : List SpanCell) (refs : List Bytes) : List ((Int32 × Int32) × Bytes) :=
  (cells.zip refs).foldl (fun map source =>
    if source.2.isEmpty then map else (anchorKey source.1.row source.1.col, source.2) :: map) []

/-- mirrors src/mapping/chandra.cpp:655-661 -/
def stampRef (map : List ((Int32 × Int32) × Bytes)) (cell : TableCell) : RichCell :=
  ⟨cell, map.lookup (anchorKey cell.startRow cell.startCol)⟩

/-- On cells whose `ref` is unset; an empty map leaves them so.
mirrors src/mapping/chandra.cpp:641-670 -/
def attachRichRefs (data : TableData) (cells : List SpanCell) (refs : List Bytes) : RichTable :=
  let map := byAnchor cells refs
  if map.isEmpty then
    ⟨data.tableCells.map fun cell => ⟨cell, none⟩,
      data.grid.map (List.map fun cell => ⟨cell, none⟩)⟩
  else ⟨data.tableCells.map (stampRef map), data.grid.map (List.map (stampRef map))⟩

/-- The early return is one of the cases of the stamp. -/
theorem attachRichRefs_eq (data : TableData) (cells : List SpanCell) (refs : List Bytes) :
    attachRichRefs data cells refs =
      ⟨data.tableCells.map (stampRef (byAnchor cells refs)),
        data.grid.map (List.map (stampRef (byAnchor cells refs)))⟩ := by
  unfold attachRichRefs
  dsimp only
  split
  · rename_i hempty
    have hnone : stampRef (byAnchor cells refs) = fun cell => ⟨cell, none⟩ := by
      funext cell
      simp only [stampRef, List.isEmpty_iff.1 hempty, List.lookup_nil]
    rw [hnone]
  · rfl

/-! ## Finding a ref again -/

/-- Row-major order of the anchors. -/
def SpanCell.Before (a b : SpanCell) : Prop := a.row < b.row ∨ a.row = b.row ∧ a.col < b.col

instance (a b : SpanCell) : Decidable (a.Before b) := inferInstanceAs (Decidable (_ ∨ _ ∧ _))

/-- Its offsets fit the `int32` fields of a table cell. -/
def SpanCell.Fits (cell : SpanCell) : Prop :=
  cell.row + cell.rowSpan < 2 ^ 31 ∧ cell.col + cell.colSpan < 2 ^ 31

instance (cell : SpanCell) : Decidable cell.Fits := inferInstanceAs (Decidable (_ ∧ _))

theorem anchorKey_inj {r c r' c' : Nat} (hr : r < 2 ^ 31) (hc : c < 2 ^ 31) (hr' : r' < 2 ^ 31)
    (hc' : c' < 2 ^ 31) (h : anchorKey r c = anchorKey r' c') : r = r' ∧ c = c' := by
  have hnat : ∀ {n m : Nat}, n < 2 ^ 31 → m < 2 ^ 31 → Int32.ofNat n = Int32.ofNat m → n = m := by
    intro n m hn hm he
    have := congrArg Int32.toInt he
    rw [Int32.toInt_ofNat_of_lt hn, Int32.toInt_ofNat_of_lt hm] at this
    omega
  obtain ⟨h1, h2⟩ := Prod.mk.inj h
  exact ⟨hnat hr hr' h1, hnat hc hc' h2⟩

/-- An empty ref is an unset one. -/
def refOf (ref : Bytes) : Option Bytes := if ref.isEmpty then none else some ref

section Lookup
variable {key : Int32 × Int32}

theorem lookup_other {sources : List (SpanCell × Bytes)}
    (h : ∀ source ∈ sources, anchorKey source.1.row source.1.col ≠ key) :
    ∀ map : List ((Int32 × Int32) × Bytes),
      (sources.foldl (fun map source => if source.2.isEmpty then map
        else (anchorKey source.1.row source.1.col, source.2) :: map) map).lookup key =
        map.lookup key := by
  induction sources with
  | nil => intro map; rfl
  | cons source sources ih =>
    intro map
    have hsource := h source List.mem_cons_self
    rw [List.foldl_cons, ih fun other hm => h other (List.mem_cons_of_mem _ hm)]
    split
    · rfl
    · rw [List.lookup_cons, beq_false_of_ne (Ne.symm hsource)]

/-- The ref of the one source cell with an anchor. -/
theorem lookup_own {earlier later : List (SpanCell × Bytes)} {source : SpanCell × Bytes}
    (hkey : anchorKey source.1.row source.1.col = key)
    (hearlier : ∀ other ∈ earlier, anchorKey other.1.row other.1.col ≠ key)
    (hlater : ∀ other ∈ later, anchorKey other.1.row other.1.col ≠ key) :
    ((earlier ++ source :: later).foldl (fun map source => if source.2.isEmpty then map
      else (anchorKey source.1.row source.1.col, source.2) :: map) []).lookup key =
      refOf source.2 := by
  rw [List.foldl_append, List.foldl_cons, lookup_other hlater, hkey, refOf]
  split
  · rw [lookup_other hearlier, List.lookup_nil]
  · rw [List.lookup_cons, beq_self_eq_true]

end Lookup

theorem SpanCell.Before.ne {a b : SpanCell} (h : a.Before b) : (a.row, a.col) ≠ (b.row, b.col) := by
  intro he
  obtain ⟨h1, h2⟩ := Prod.mk.inj he
  rcases h with h | ⟨-, h⟩ <;> omega

/-- Each source cell finds its own ref again. -/
theorem lookup_byAnchor {cells : List SpanCell} {refs : List Bytes} {source : SpanCell × Bytes}
    (hmajor : cells.Pairwise SpanCell.Before) (hfits : ∀ cell ∈ cells, cell.Fits)
    (hlen : refs.length = cells.length) (hmem : source ∈ cells.zip refs) :
    (byAnchor cells refs).lookup (anchorKey source.1.row source.1.col) = refOf source.2 := by
  have hcells : ∀ other ∈ cells.zip refs, other.1 ∈ cells := fun other hm => (List.of_mem_zip hm).1
  have hzip : (cells.zip refs).Pairwise fun a b => a.1.Before b.1 := by
    rw [← List.map_fst_zip hlen.ge] at hmajor
    exact List.pairwise_map.1 hmajor
  have hkeys : ∀ a b : SpanCell, a ∈ cells → b ∈ cells → (a.row, a.col) ≠ (b.row, b.col) →
      anchorKey a.row a.col ≠ anchorKey b.row b.col := by
    intro a b ha hb hne he
    obtain ⟨ha1, ha2⟩ := hfits a ha
    obtain ⟨hb1, hb2⟩ := hfits b hb
    obtain ⟨h1, h2⟩ := anchorKey_inj (by omega) (by omega) (by omega) (by omega) he
    exact hne (by rw [h1, h2])
  obtain ⟨earlier, later, hsplit⟩ := List.append_of_mem hmem
  rw [byAnchor, hsplit]
  rw [hsplit] at hzip hcells
  obtain ⟨-, htail, hcross⟩ := List.pairwise_append.1 hzip
  have hsource := hcells source (by simp)
  refine lookup_own rfl ?_ ?_
  · intro other hm
    exact hkeys _ _ (hcells other (by simp [hm])) hsource
      (hcross other hm source List.mem_cons_self).ne
  · intro other hm
    exact hkeys _ _ (hcells other (by simp [hm])) hsource
      ((List.pairwise_cons.1 htail).1 other hm).ne.symm

/-! ## The table -/

/-- A source cell that the caps leave alone. -/
def wholeCell (source : SpanCell) : TableCell where
  text := source.text
  columnHeader := source.columnHeader
  rowHeader := source.rowHeader
  rowSection := false
  rowSpan := source.rowSpan
  colSpan := source.colSpan
  startRow := source.row
  endRow := source.row + source.rowSpan
  startCol := source.col
  endCol := source.col + source.colSpan

/-- Anchored in the leading `rows × cols`. -/
def SpanCell.AnchoredIn (rows cols : Nat) (cell : SpanCell) : Prop :=
  cell.row < rows ∧ cell.col < cols

instance (rows cols : Nat) (cell : SpanCell) : Decidable (cell.AnchoredIn rows cols) :=
  inferInstanceAs (Decidable (_ ∧ _))

/-- What `fillSpanTable` and `attachRichRefs` make of cells and their refs. -/
structure SpanTable (cells : List SpanCell) (refs : List Bytes) (data : TableData) (cut : TableCut)
    (rich : RichTable) : Prop where
  caps : data.numRows ≤ kMaxTableRows ∧ data.numCols ≤ kMaxTableCols ∧
    data.numRows * data.numCols ≤ kMaxTableCells
  truncated : cut.truncated = true ↔
    data.numRows < cellsBottom cells ∨ data.numCols < cellsRight cells
  kept : data.tableCells = (cells.filter fun cell => cell.AnchoredIn data.numRows data.numCols).map
    (keptCell data.numRows data.numCols)
  whole : cut.truncated = false → data.tableCells = cells.map wholeCell
  grid : cut.gridOmitted = false → IsGrid data.numRows data.numCols data.tableCells data.grid
  omitted : cut.gridOmitted = true → data.grid = []
  copies : rich.tableCells.map RichCell.cell = data.tableCells ∧
    rich.grid.map (List.map RichCell.cell) = data.grid
  found : rich.tableCells.map RichCell.ref =
    ((cells.zip refs).filter fun source => source.1.AnchoredIn data.numRows data.numCols).map
      fun source => refOf source.2
  joined : ∀ r c position, entry rich.grid r c = some position →
    (∃ cell ∈ data.tableCells, cell.Covers r c) →
    position ∈ rich.tableCells ∧ ∀ other ∈ rich.tableCells,
      other.cell.startRow = position.cell.startRow → other.cell.startCol = position.cell.startCol →
        other = position

section Table
variable {cells : List SpanCell} {refs : List Bytes}

theorem keptCells_before (hmajor : cells.Pairwise SpanCell.Before) (numRows numCols : Nat) :
    ((cells.filter fun cell => cell.AnchoredIn numRows numCols).map
      (keptCell numRows numCols)).Pairwise TableCell.Before := by
  rw [List.pairwise_map]
  exact hmajor.filter _

theorem keptCells_inside (hspans : ∀ cell ∈ cells, 1 ≤ cell.rowSpan ∧ 1 ≤ cell.colSpan)
    (numRows numCols : Nat) :
    ∀ cell ∈ (cells.filter fun cell => cell.AnchoredIn numRows numCols).map
      (keptCell numRows numCols), cell.Inside numRows numCols := by
  intro cell hcell
  obtain ⟨source, hsource, rfl⟩ := List.mem_map.1 hcell
  obtain ⟨hmem, hin⟩ := List.mem_filter.1 hsource
  obtain ⟨hrow, hcol⟩ := of_decide_eq_true hin
  obtain ⟨h1, h2⟩ := hspans source hmem
  simp only [TableCell.Inside, keptCell]
  omega

/-- Nothing is clipped within the kept shape. -/
theorem keptCells_whole {numRows numCols : Nat}
    (hspans : ∀ cell ∈ cells, 1 ≤ cell.rowSpan ∧ 1 ≤ cell.colSpan)
    (hrows : cellsBottom cells ≤ numRows) (hcols : cellsRight cells ≤ numCols) :
    (cells.filter fun cell => cell.AnchoredIn numRows numCols).map (keptCell numRows numCols) =
      cells.map wholeCell := by
  have hends : ∀ cell ∈ cells, cell.row + cell.rowSpan ≤ numRows ∧
    cell.col + cell.colSpan ≤ numCols :=
    fun cell hm => ⟨(foldl_max_le_iff.1 hrows).2 _ (List.mem_map_of_mem hm),
      (foldl_max_le_iff.1 hcols).2 _ (List.mem_map_of_mem hm)⟩
  have hall : (cells.filter fun cell => cell.AnchoredIn numRows numCols) = cells := by
    refine List.filter_eq_self.2 fun cell hm => decide_eq_true ?_
    obtain ⟨h1, h2⟩ := hends cell hm
    obtain ⟨h3, h4⟩ := hspans cell hm
    exact ⟨by omega, by omega⟩
  rw [hall]
  refine List.map_congr_left fun cell hm => ?_
  obtain ⟨h1, h2⟩ := hends cell hm
  simp only [keptCell, wholeCell, Nat.min_eq_left h1, Nat.min_eq_left h2, Nat.add_sub_cancel_left]

/-- The kept cells' refs, looked up by start offset. -/
theorem stampRef_keptCells (hmajor : cells.Pairwise SpanCell.Before)
    (hfits : ∀ cell ∈ cells, cell.Fits)
    (hlen : refs.length = cells.length) (numRows numCols : Nat) :
    ((cells.filter fun cell => cell.AnchoredIn numRows numCols).map (keptCell numRows numCols)).map
        (fun cell => (stampRef (byAnchor cells refs) cell).ref) =
      ((cells.zip refs).filter fun source => source.1.AnchoredIn numRows numCols).map
        fun source => refOf source.2 := by
  have hfst : cells.filter (fun cell => cell.AnchoredIn numRows numCols) =
      ((cells.zip refs).filter fun source => source.1.AnchoredIn numRows numCols).map Prod.fst := by
    conv_lhs => rw [← List.map_fst_zip hlen.ge, List.filter_map]
    rfl
  rw [hfst, List.map_map, List.map_map]
  refine List.map_congr_left fun source hm => ?_
  exact lookup_byAnchor hmajor hfits hlen (List.mem_filter.1 hm).1

theorem lastCovering_mem {cells : List TableCell} {r c : Nat}
    (h : ∃ cell ∈ cells, cell.Covers r c) :
    ∃ cell ∈ cells, lastCovering cells r c = some cell := by
  cases hlast : lastCovering cells r c with
  | some cell => exact ⟨cell, List.mem_reverse.1 (List.mem_of_find?_eq_some hlast), rfl⟩
  | none =>
    obtain ⟨cell, hmem, hcov⟩ := h
    have := List.find?_eq_none.1 hlast cell (List.mem_reverse.2 hmem)
    simp [hcov] at this

/-- A covered position of the stamped grid is one of the stamped cells. -/
theorem joined_stampRef {numRows numCols : Nat} {tableCells : List TableCell}
    {grid : List (List TableCell)} (hmajor : tableCells.Pairwise TableCell.Before)
    (hgrid : IsGrid numRows numCols tableCells grid) (stampOf : TableCell → RichCell)
    (hstamp : ∀ cell, (stampOf cell).cell = cell) {r c : Nat} {position : RichCell}
    (hat : entry (grid.map (List.map stampOf)) r c = some position)
    (hcov : ∃ cell ∈ tableCells, cell.Covers r c) :
    position ∈ tableCells.map stampOf ∧ ∀ other ∈ tableCells.map stampOf,
      other.cell.startRow = position.cell.startRow → other.cell.startCol = position.cell.startCol →
        other = position := by
  have hmap : entry (grid.map (List.map stampOf)) r c = (cellAt grid r c).map stampOf := by
    simp only [entry, cellAt, List.getElem?_map]
    cases grid[r]? with
    | none => rfl
    | some row => simp
  rw [hmap] at hat
  obtain ⟨old, hold, hposition⟩ := Option.map_eq_some_iff.1 hat
  obtain ⟨row, hrow, hcol⟩ := Option.bind_eq_some_iff.1 hold
  have hr : r < numRows := by rw [← hgrid.rows]; exact (List.getElem?_eq_some_iff.1 hrow).1
  have hc : c < numCols := by
    rw [← hgrid.cols row (List.mem_of_getElem? hrow)]; exact (List.getElem?_eq_some_iff.1 hcol).1
  obtain ⟨last, hlast, hfind⟩ := lastCovering_mem hcov
  have hold' : old = last := by
    have hholds := hgrid.holds r c hr hc
    rw [hold, hfind] at hholds
    exact Option.some.inj hholds
  subst hposition
  rw [hold']
  refine ⟨List.mem_map_of_mem hlast, fun other hother hsr hsc => ?_⟩
  obtain ⟨cell, hcell, rfl⟩ := List.mem_map.1 hother
  rw [hstamp, hstamp] at hsr hsc
  rw [eq_of_start hmajor hcell hlast hsr hsc]

/-- **Span tables with rich cells**, for any cells in row-major order whose
offsets fit a table cell's. -/
theorem spanTable_spec (byteSizeLong : TableCell → Nat) (hmajor : cells.Pairwise SpanCell.Before)
    (hspans : ∀ cell ∈ cells, 1 ≤ cell.rowSpan ∧ 1 ≤ cell.colSpan)
    (hfits : ∀ cell ∈ cells, cell.Fits) (hlen : refs.length = cells.length) :
    SpanTable cells refs (fillSpanTable byteSizeLong cells).1 (fillSpanTable byteSizeLong cells).2
      (attachRichRefs (fillSpanTable byteSizeLong cells).1 cells refs) := by
  have hcaps := keptTableShape_caps (cellsBottom cells) (cellsRight cells)
  have htable : fillSpanTable byteSizeLong cells =
      let kept := keptTableShape (cellsBottom cells) (cellsRight cells)
      let tableCells := (cells.filter fun cell => cell.AnchoredIn kept.1 kept.2).map
        (keptCell kept.1 kept.2)
      let fits := gridFits byteSizeLong kept.1 kept.2 0 tableCells
      (⟨kept.1, kept.2, tableCells, if fits then fillGrid kept.1 kept.2 tableCells else []⟩,
        ⟨cellsBottom cells, cellsRight cells,
          decide (kept.1 < cellsBottom cells ∨ kept.2 < cellsRight cells), !fits⟩) := rfl
  have hmajor' := keptCells_before hmajor (keptTableShape (cellsBottom cells) (cellsRight cells)).1
    (keptTableShape (cellsBottom cells) (cellsRight cells)).2
  have hinside := keptCells_inside hspans (keptTableShape (cellsBottom cells) (cellsRight cells)).1
    (keptTableShape (cellsBottom cells) (cellsRight cells)).2
  rw [htable, attachRichRefs_eq]
  dsimp only
  generalize keptTableShape (cellsBottom cells) (cellsRight cells) = kept at hcaps hmajor' hinside ⊢
  refine ⟨hcaps, decide_eq_true_iff, rfl, ?_, ?_, ?_, ?_, ?_, ?_⟩
  · intro hcut
    have hcut := of_decide_eq_false hcut
    exact keptCells_whole hspans (by omega) (by omega)
  · intro hfit
    rw [Bool.not_eq_false'] at hfit
    rw [if_pos hfit]
    exact isGrid_fillGrid hmajor' hinside
  · intro hfit
    rw [Bool.not_eq_true'] at hfit
    simp only [hfit, Bool.false_eq_true, if_false]
  · have hcell : RichCell.cell ∘ stampRef (byAnchor cells refs) = id := rfl
    simp only [List.map_map, List.map_comp_map, hcell, List.map_id, ← Function.comp_assoc,
      Function.id_comp, List.map_id_fun, and_self]
  · rw [List.map_map]
    exact stampRef_keptCells hmajor hfits hlen kept.1 kept.2
  · intro r c position hat hcov
    split at hat
    · exact joined_stampRef hmajor' (isGrid_fillGrid hmajor' hinside) _ (fun _ => rfl) hat hcov
    · simp [entry] at hat

end Table

/-- Two overlapping cells, the first with a ref. -/
def sampleSpans : List SpanCell :=
  [⟨0, 0, 2, 2, Bytes.ascii "a", true, false⟩, ⟨1, 1, 1, 2, Bytes.ascii "b", false, false⟩]

theorem spanTable_spec_sample :
    SpanTable sampleSpans [Bytes.ascii "#/groups/0", []]
      (fillSpanTable (fun cell => cell.text.length + 20) sampleSpans).1
      (fillSpanTable (fun cell => cell.text.length + 20) sampleSpans).2
      (attachRichRefs (fillSpanTable (fun cell => cell.text.length + 20) sampleSpans).1 sampleSpans
        [Bytes.ascii "#/groups/0", []]) :=
  spanTable_spec _ (by decide) (by decide) (by decide) rfl

/-- Two cells in one column, 2^32 rows apart. -/
def farSpans : List SpanCell :=
  [⟨0, 0, 1, 1, [], false, false⟩, ⟨2 ^ 32, 0, 1, 1, [], false, false⟩]

/-- The row of a dropped cell narrows to that of a kept one, which takes its
ref. -/
theorem attachRichRefs_wraps :
    farSpans.Pairwise SpanCell.Before ∧
      (∀ cell ∈ farSpans, 1 ≤ cell.rowSpan ∧ 1 ≤ cell.colSpan) ∧
      (attachRichRefs (fillSpanTable (fun _ => 20) farSpans).1 farSpans
        [[], Bytes.ascii "#/groups/0"]).tableCells =
        [⟨wholeCell ⟨0, 0, 1, 1, [], false, false⟩, some (Bytes.ascii "#/groups/0")⟩] ∧
      ¬ SpanTable farSpans [[], Bytes.ascii "#/groups/0"] (fillSpanTable (fun _ => 20) farSpans).1
        (fillSpanTable (fun _ => 20) farSpans).2
        (attachRichRefs (fillSpanTable (fun _ => 20) farSpans).1 farSpans
          [[], Bytes.ascii "#/groups/0"]) := by
  refine ⟨by decide, by decide, by decide, fun h => ?_⟩
  have hfound := h.found
  revert hfound
  decide

end VlmConvert.L2

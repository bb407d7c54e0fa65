import VlmConvert.L2Table.Grid

/-!
# Tables of plain rows

`fill_table_data` of `src/mapping/builder.h`: rows of already-split text, one
1×1 cell per string, short rows padded in the grid only. The caps look at the
widest row of the source, the width of the grid at the widest row that is
kept.

Results: `fillTableData_spec`, in particular that a source cell is missing
from the table only if the cut says so, and `fillTableData_whole`, the cells
of a table within the caps.
-/
namespace VlmConvert.L2

/-- The cell at a position of the grid; past the end of its row it is padding.
mirrors src/mapping/builder.h:249-260 -/
def textCell (rows : List (List Bytes)) (headerRows r c : Nat) : TableCell :=
  match entry rows r c with
  | some text => ⟨text, decide (r < headerRows), false, false, 1, 1, r, r + 1, c, c + 1⟩
  | none => emptyCell r c

/-- On a fresh `TableData`.
mirrors src/mapping/builder.h:225-272 -/
def fillTableData (rows : List (List Bytes)) (headerRows : Nat) : TableData × TableCut :=
  let sourceCols := widest rows
  let kept := keptTableShape rows.length sourceCols
  let numCols := ((rows.take kept.1).map fun row => min row.length kept.2).foldl max 0
  (⟨kept.1, numCols,
      (List.range kept.1).flatMap fun r => (List.range numCols).filterMap fun c =>
        if c < (rows.getD r []).length then some (textCell rows headerRows r c) else none,
      (List.range kept.1).map fun r => (List.range numCols).map fun c =>
        textCell rows headerRows r c⟩,
    ⟨rows.length, sourceCols, decide (kept.1 < rows.length ∨ kept.2 < sourceCols), false⟩)

/-! ## What the table holds -/

/-- What `fillTableData` makes of rows. -/
structure TextTable (rows : List (List Bytes)) (headerRows : Nat) (data : TableData)
    (cut : TableCut) :
    Prop where
  caps : data.numRows ≤ kMaxTableRows ∧ data.numCols ≤ kMaxTableCols ∧
    data.numRows * data.numCols ≤ kMaxTableCells
  rectangle : data.grid.length = data.numRows ∧ ∀ row ∈ data.grid, row.length = data.numCols
  grid : ∀ r c, r < data.numRows → c < data.numCols → ∃ cell, cellAt data.grid r c = some cell ∧
    cell = { emptyCell r c with text := cell.text, columnHeader := cell.columnHeader } ∧
    cell.text = (entry rows r c).getD [] ∧
    (cell.columnHeader = true ↔ r < headerRows ∧ (entry rows r c).isSome = true)
  row_major : data.tableCells.Pairwise TableCell.Before
  cells : ∀ cell, cell ∈ data.tableCells ↔ ∃ r c, r < data.numRows ∧ c < data.numCols ∧
    (entry rows r c).isSome = true ∧ cellAt data.grid r c = some cell
  reported : ∀ r c, (entry rows r c).isSome = true →
    (∀ cell ∈ data.tableCells, ¬ (cell.startRow = r ∧ cell.startCol = c)) → cut.truncated = true

section
variable (rows : List (List Bytes)) (headerRows : Nat)

theorem textCell_eq (r c : Nat) :
    textCell rows headerRows r c = { emptyCell r c with
      text := (entry rows r c).getD []
      columnHeader := decide (r < headerRows) && (entry rows r c).isSome } := by
  unfold textCell
  cases entry rows r c with
  | some text => simp [emptyCell]
  | none => simp [emptyCell]

theorem textCell_start (r c : Nat) : (textCell rows headerRows r c).startRow = r ∧
    (textCell rows headerRows r c).startCol = c := by
  rw [textCell_eq]
  exact ⟨rfl, rfl⟩

theorem entry_isSome {r c : Nat} :
    (entry rows r c).isSome = true ↔ c < (rows.getD r []).length := by
  rw [entry, List.getD_eq_getElem?_getD]
  cases rows[r]? with
  | none => simp
  | some row => simp

theorem isSome_lt {r c : Nat} (h : (entry rows r c).isSome = true) : r < rows.length := by
  obtain ⟨text, htext⟩ := Option.isSome_iff_exists.1 h
  obtain ⟨row, hrow, -⟩ := entry_eq_some.1 htext
  exact (List.getElem?_eq_some_iff.1 hrow).1

/-- The table's cells: its positions that the source has. -/
theorem mem_tableCells (numRows numCols : Nat) (cell : TableCell) :
    cell ∈ ((List.range numRows).flatMap fun r => (List.range numCols).filterMap fun c =>
      if c < (rows.getD r []).length then some (textCell rows headerRows r c) else none) ↔
      ∃ r c, r < numRows ∧ c < numCols ∧ (entry rows r c).isSome = true ∧
        textCell rows headerRows r c = cell := by
  simp only [List.mem_flatMap, List.mem_range, List.mem_filterMap, entry_isSome,
    Option.ite_none_right_eq_some, Option.some.injEq]
  constructor
  · rintro ⟨r, hr, c, hc, hlen, hcell⟩
    exact ⟨r, c, hr, hc, hlen, hcell⟩
  · rintro ⟨r, c, hr, hc, hlen, hcell⟩
    exact ⟨r, hr, c, hc, hlen, hcell⟩

theorem tableCells_before (numRows numCols : Nat) :
    ((List.range numRows).flatMap fun r => (List.range numCols).filterMap fun c =>
      if c < (rows.getD r []).length then some (textCell rows headerRows r c) else none).Pairwise
      TableCell.Before := by
  refine before_rowMajor (fun r c cell hcell => ?_) numRows fun _ => numCols
  obtain ⟨-, hcell⟩ := Option.ite_none_right_eq_some.1 hcell
  rw [← Option.some.inj hcell]
  exact textCell_start rows headerRows r c

/-- The width of the kept rows is within the kept columns, and reaches every
cell they have there. -/
theorem keptWidth_spec (kept : Nat × Nat) :
    ((rows.take kept.1).map fun row => min row.length kept.2).foldl max 0 ≤ kept.2 ∧
      ∀ r c, r < kept.1 → c < kept.2 → (entry rows r c).isSome = true →
        c < ((rows.take kept.1).map fun row => min row.length kept.2).foldl max 0 := by
  constructor
  · refine foldl_max_le_iff.2 ⟨Nat.zero_le _, fun x hx => ?_⟩
    obtain ⟨row, -, rfl⟩ := List.mem_map.1 hx
    exact Nat.min_le_right _ _
  · intro r c hr hc hsome
    obtain ⟨text, htext⟩ := Option.isSome_iff_exists.1 hsome
    obtain ⟨row, hrow, hget⟩ := entry_eq_some.1 htext
    have hmem : row ∈ rows.take kept.1 :=
      List.mem_of_getElem? ((List.getElem?_take_of_lt hr).trans hrow)
    have hle := (foldl_max_le_iff.1 (Nat.le_refl
      (((rows.take kept.1).map fun row => min row.length kept.2).foldl max 0))).2 _
      (List.mem_map_of_mem hmem)
    have hlen := (List.getElem?_eq_some_iff.1 hget).1
    omega

/-- **Tables of plain rows**, ragged or not and of any size. -/
theorem fillTableData_spec :
    TextTable rows headerRows (fillTableData rows headerRows).1
      (fillTableData rows headerRows).2 := by
  obtain ⟨hcap1, hcap2, hcap3⟩ := keptTableShape_caps rows.length (widest rows)
  have hkept := keptTableShape_le rows.length (widest rows)
  obtain ⟨hwidth, hreach⟩ := keptWidth_spec rows (keptTableShape rows.length (widest rows))
  unfold fillTableData
  dsimp only
  generalize keptTableShape rows.length (widest rows) = kept at *
  generalize ((rows.take kept.1).map fun row => min row.length kept.2).foldl max 0 = numCols at *
  have hgrid : ∀ r c, r < kept.1 → c < numCols → cellAt ((List.range kept.1).map fun r =>
      (List.range numCols).map fun c => textCell rows headerRows r c) r c =
      some (textCell rows headerRows r c) := by
    intro r c hr hc
    simp [cellAt, hr, hc]
  refine ⟨⟨hcap1, hwidth.trans hcap2, (Nat.mul_le_mul_left _ hwidth).trans hcap3⟩,
    ⟨by simp, ?_⟩, ?_, tableCells_before rows headerRows kept.1 numCols, ?_, ?_⟩
  · intro row hrow
    obtain ⟨r, -, rfl⟩ := List.mem_map.1 hrow
    simp
  · intro r c hr hc
    refine ⟨_, hgrid r c hr hc, ?_⟩
    rw [textCell_eq]
    simp
  · intro cell
    rw [mem_tableCells]
    constructor
    · rintro ⟨r, c, hr, hc, hsome, rfl⟩
      exact ⟨r, c, hr, hc, hsome, hgrid r c hr hc⟩
    · rintro ⟨r, c, hr, hc, hsome, hcell⟩
      exact ⟨r, c, hr, hc, hsome, Option.some.inj ((hgrid r c hr hc).symm.trans hcell)⟩
  · intro r c hsome hmissing
    by_contra hcut
    rw [decide_eq_true_eq, not_or, Nat.not_lt, Nat.not_lt] at hcut
    obtain ⟨hrows, hcols⟩ := hcut
    have hr : r < kept.1 := Nat.lt_of_lt_of_le (isSome_lt rows hsome) hrows
    have hc : c < kept.2 := by
      obtain ⟨text, htext⟩ := Option.isSome_iff_exists.1 hsome
      obtain ⟨row, hrow, hget⟩ := entry_eq_some.1 htext
      have hlen := (List.getElem?_eq_some_iff.1 hget).1
      have hwide := widest_le_iff.1 (Nat.le_refl _) row (List.mem_of_getElem? hrow)
      omega
    have hmem := (mem_tableCells rows headerRows kept.1 numCols _).2
      ⟨r, c, hr, hreach r c hr hc hsome, hsome, rfl⟩
    exact hmissing _ hmem (textCell_start rows headerRows r c)

end

/-! ## Rows within the caps -/

theorem filterMap_range_lt {β : Type} (f : Nat → β) {n width : Nat} (h : n ≤ width) :
    ((List.range width).filterMap fun c => if c < n then some (f c) else none) =
      (List.range n).map f := by
  induction width with
  | zero =>
    rw [Nat.le_zero.1 h]
    rfl
  | succ width ih =>
    rw [List.range_succ, List.filterMap_append]
    rcases Nat.lt_or_ge width n with hlt | hge
    · have hn : n = width + 1 := by omega
      have hall : ((List.range width).filterMap fun c => if c < n then some (f c) else none) =
          (List.range width).map f := by
        rw [← List.filterMap_eq_map]
        refine List.filterMap_congr fun c hc => ?_
        have := List.mem_range.1 hc
        exact if_pos (by omega)
      rw [hall, List.filterMap_cons, if_pos hlt, hn, List.range_succ, List.map_append]
      rfl
    · rw [ih hge, List.filterMap_cons, if_neg (by omega)]
      exact List.append_nil _

theorem zipIdx_eq_map_range {β : Type} (l : List β) (d : β) :
    l.zipIdx = (List.range l.length).map fun i => (l.getD i d, i) := by
  refine List.ext_getElem (by simp) fun i h₁ h₂ => ?_
  have hi : i < l.length := by simpa using h₁
  simp [hi]

/-- A table within the caps holds exactly the cells of its rows, in order. -/
theorem fillTableData_whole {rows : List (List Bytes)} (headerRows : Nat)
    (h1 : rows.length ≤ kMaxTableRows) (h2 : widest rows ≤ kMaxTableCols)
    (h3 : rows.length * widest rows ≤ kMaxTableCells) :
    (fillTableData rows headerRows).1.tableCells =
        (rows.zipIdx.flatMap fun row => row.1.zipIdx.map fun cell =>
          ⟨cell.1, decide (row.2 < headerRows), false, false, 1, 1, row.2, row.2 + 1, cell.2,
            cell.2 + 1⟩) ∧
      (fillTableData rows headerRows).2 = ⟨rows.length, widest rows, false, false⟩ := by
  have hreach : ∀ row ∈ rows, row.length ≤
      ((rows.take rows.length).map fun row => min row.length (widest rows)).foldl max 0 := by
    intro row hrow
    have hwide := widest_le_iff.1 (Nat.le_refl (widest rows)) row hrow
    have hmin : min row.length (widest rows) ≤ _ := (foldl_max_le_iff.1 (Nat.le_refl
      (((rows.take rows.length).map fun row => min row.length (widest rows)).foldl max 0))).2 _
      (List.mem_map.2 ⟨row, by rwa [List.take_length], rfl⟩)
    omega
  unfold fillTableData
  dsimp only
  rw [keptTableShape_eq h1 h2 h3]
  refine ⟨?_, by simp⟩
  dsimp only
  generalize ((rows.take rows.length).map fun row => min row.length (widest rows)).foldl max 0 =
    numCols at *
  rw [zipIdx_eq_map_range rows [], List.flatMap_map]
  refine List.flatMap_congr fun r hr => ?_
  have hrow : rows.getD r [] ∈ rows := by
    rw [List.getD_eq_getElem _ _ (List.mem_range.1 hr)]
    exact List.getElem_mem _
  rw [filterMap_range_lt _ (hreach _ hrow), zipIdx_eq_map_range (rows.getD r []) [], List.map_map]
  refine List.map_congr_left fun c hc => ?_
  have hentry : entry rows r c = some ((rows.getD r []).getD c []) := by
    have hlen := List.mem_range.1 hr
    have hclen := List.mem_range.1 hc
    rw [List.getD_eq_getElem _ _ hlen] at hclen ⊢
    rw [List.getD_eq_getElem _ _ hclen, entry, List.getElem?_eq_getElem hlen]
    exact List.getElem?_eq_getElem hclen
  rw [textCell, hentry]
  rfl

end VlmConvert.L2

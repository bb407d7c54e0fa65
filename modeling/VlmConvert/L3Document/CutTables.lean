import VlmConvert.L2Table.HtmlLayout
import VlmConvert.L3Document.LayoutWriter

/-!
# Tables that pass for complete

A cut table is reported beside the page (`PAGE_WARNING_CODE_TABLE_TRUNCATED`),
"so a cut table never passes for a complete one" (`docs/design.md:158-170`).
The report comes from the caps of `fillSpanTable`. A DeepSeek cell that finds
no free column is dropped before that, and the rest of its row with it.

Result: `deepseek_complete_iff`, when a DeepSeek table without a report holds
every cell.
-/
namespace VlmConvert.L3

open Bytes L1 L2 Placement

/-! ## The cells of a DeepSeek table -/

section Raw

theorem rawCells_spec {nodes : List MarkupNode} :
    ∀ {cells : List RawCell}, rawCells nodes = some cells →
    cells.map RawCell.node = nodes.filter isCell ∧
      ∀ raw ∈ cells, 1 ≤ raw.colSpan ∧ 1 ≤ raw.rowSpan := by
  induction nodes with
  | nil =>
    intro cells h
    cases h
    exact ⟨rfl, by simp⟩
  | cons node nodes ih =>
    intro cells h
    have hclamp : ∀ n : Int, 1 ≤ clampSpan n := by
      intro n
      simp only [clampSpan, kMaxTableCells]
      omega
    cases hcell : isCell node with
    | false =>
      simp only [rawCells, hcell, Bool.not_false, if_true] at h
      rw [List.filter_cons_of_neg (by simp [hcell])]
      exact ih h
    | true =>
      simp only [rawCells, hcell, Bool.not_true, Bool.false_eq_true, if_false] at h
      rw [List.filter_cons_of_pos hcell]
      split at h
      · rename_i colspan rowspan _ _
        obtain ⟨rest, hrest, rfl⟩ := Option.map_eq_some_iff.1 h
        obtain ⟨hnodes, hspans⟩ := ih hrest
        refine ⟨by rw [List.map_cons, hnodes], ?_⟩
        intro raw hraw
        rcases List.mem_cons.1 hraw with rfl | hraw
        · exact ⟨hclamp colspan, hclamp rowspan⟩
        · exact hspans raw hraw
      · cases h

/-- The cells of every row, in source order. -/
theorem gridRows_spec {rows : List MarkupNode} : ∀ {gridRows : List (List RawCell)},
    (rows.mapM fun row => rawCells row.children) = some gridRows →
    gridRows.length = rows.length ∧
      gridRows.flatten.map RawCell.node = rows.flatMap (fun row => row.children.filter isCell) ∧
      ∀ raw ∈ gridRows.flatten, 1 ≤ raw.colSpan ∧ 1 ≤ raw.rowSpan := by
  induction rows with
  | nil =>
    intro gridRows h
    cases h
    exact ⟨rfl, rfl, by simp⟩
  | cons row rows ih =>
    intro gridRows h
    rw [List.mapM_cons] at h
    simp only [Option.bind_eq_bind, Option.bind_eq_some_iff, Option.pure_def,
      Option.some.injEq] at h
    obtain ⟨cells, hcells, rest, hrest, rfl⟩ := h
    obtain ⟨hnodes, hspans⟩ := rawCells_spec hcells
    obtain ⟨hlength, hnodes', hspans'⟩ := ih hrest
    refine ⟨by simp [hlength], ?_, ?_⟩
    · rw [List.flatten_cons, List.map_append, List.flatMap_cons, hnodes, hnodes']
    · intro raw hraw
      rw [List.flatten_cons] at hraw
      rcases List.mem_append.1 hraw with hraw | hraw
      · exact hspans raw hraw
      · exact hspans' raw hraw

end Raw

/-- The width of the matrix: the widest row's colspans, capped.
mirrors src/mapping/deepseek.cpp:270-274 -/
def deepseekWidth (gridRows : List (List RawCell)) : Nat :=
  min ((gridRows.map fun cells => (cells.map RawCell.colSpan).sum).foldl max 0) (kMaxTableCols * 4)

def deepseekBoxes (gridRows : List (List RawCell)) : List (List (Box MarkupNode)) :=
  gridRows.map (·.map deepseekBox)

/-- What is placed before each row runs out of columns. -/
def deepseekPlaced (gridRows : List (List RawCell)) : List (Placed MarkupNode) :=
  place (pastWidth (deepseekWidth gridRows)) 0 (deepseekBoxes gridRows) ∅

theorem foldl_max_min (k : Nat) (l : List Nat) : ∀ a,
    (l.map (min · k)).foldl max (min a k) = min (l.foldl max a) k := by
  induction l with
  | nil => intro a; rfl
  | cons b l ih =>
    intro a
    rw [List.map_cons, List.foldl_cons, List.foldl_cons, ← ih]
    congr 1
    omega

theorem foldl_max_clip {α : Type} (k : Nat) (f g : α → Nat) (l : List α)
    (h : ∀ x ∈ l, g x = min (f x) k) :
    (l.map g).foldl max 0 = min ((l.map f).foldl max 0) k := by
  have hmap : l.map g = (l.map f).map (min · k) := by
    rw [List.map_map]
    exact List.map_congr_left h
  rw [hmap, ← foldl_max_min k (l.map f) 0, Nat.zero_min]

/-- A placed cell is inside the matrix, and its spans stop at the edges. -/
theorem deepseekPlaced_inside {gridRows : List (List RawCell)} {p : Placed MarkupNode}
    (hp : p ∈ deepseekPlaced gridRows) :
    p.row < gridRows.length ∧ p.col < deepseekWidth gridRows := by
  obtain ⟨hrow, hstop⟩ := mem_place_row _ hp
  rw [deepseekBoxes, List.length_map] at hrow
  refine ⟨by omega, ?_⟩
  simpa [pastWidth] using hstop

section Table
variable {content html : Bytes} {gridRows : List (List RawCell)}
    (hhtml : tableHtml content = some html)
  (hrows : collectRows (parseMarkup .html html) ≠ [])
  (hspans : ((collectRows (parseMarkup .html html)).mapM fun row => rawCells row.children) =
    some gridRows)
include hhtml hrows hspans

theorem deepseekTableCells_place : deepseekTableCells content =
    (deepseekPlaced gridRows).map (deepseekCell gridRows.length (deepseekWidth gridRows)) := by
  have hlength := (gridRows_spec hspans).1
  have hne : (collectRows (parseMarkup .html html)).isEmpty = false := by simpa using hrows
  simp only [deepseekTableCells, hhtml, hne, Bool.false_eq_true, if_false, hspans]
  rw [← hlength]
  exact deepseekFrom_place gridRows (by simp) (marks_start _ _)

/-- What a table that is not cut holds: the texts of the placed cells. -/
theorem deepseek_whole (byteSizeLong : TableCell → Nat)
    (h : (fillSpanTable byteSizeLong (deepseekTableCells content)).2.truncated = false) :
    (fillSpanTable byteSizeLong (deepseekTableCells content)).1.tableCells.map TableCell.text =
      (deepseekPlaced gridRows).map fun p => trim (rawText p.box.value) := by
  have hcells := deepseekTableCells_place hhtml hrows hspans
  have hpositive : ∀ c ∈ deepseekTableCells content, 1 ≤ c.rowSpan ∧ 1 ≤ c.colSpan := by
    rw [hcells]
    intro c hc
    obtain ⟨p, hp, rfl⟩ := List.mem_map.1 hc
    obtain ⟨hrow, hcol⟩ := deepseekPlaced_inside hp
    have hbox := mem_place _ hp
    rw [deepseekBoxes, ← List.map_flatten] at hbox
    obtain ⟨raw, hraw, hbox⟩ := List.mem_map.1 hbox
    have hraw := (gridRows_spec hspans).2.2 raw hraw
    simp only [deepseekCell, ← hbox, deepseekBox]
    omega
  have hwhole := congrArg (List.map fun c : Bytes × Nat × Nat => c.1)
    (fillSpanTable_whole byteSizeLong hpositive h)
  rw [List.map_map, List.map_map] at hwhole
  refine Eq.trans hwhole ?_
  rw [hcells, List.map_map]
  rfl

/-- When the caps cut what was placed. -/
theorem deepseek_truncated (byteSizeLong : TableCell → Nat) :
    (fillSpanTable byteSizeLong (deepseekTableCells content)).2.truncated = true ↔
      OverCaps (min (bottom (deepseekPlaced gridRows)) gridRows.length)
        (min (right (deepseekPlaced gridRows)) (deepseekWidth gridRows)) := by
  rw [fillSpanTable_truncated, deepseekTableCells_place hhtml hrows hspans]
  have hbottom : cellsBottom ((deepseekPlaced gridRows).map
      (deepseekCell gridRows.length (deepseekWidth gridRows))) =
      min (bottom (deepseekPlaced gridRows)) gridRows.length := by
    rw [cellsBottom, List.map_map, bottom]
    refine foldl_max_clip _ _ _ _ ?_
    intro p hp
    have := deepseekPlaced_inside hp
    simp only [Function.comp_apply, deepseekCell]
    omega
  have hright : cellsRight ((deepseekPlaced gridRows).map
      (deepseekCell gridRows.length (deepseekWidth gridRows))) =
      min (right (deepseekPlaced gridRows)) (deepseekWidth gridRows) := by
    rw [cellsRight, List.map_map, right]
    refine foldl_max_clip _ _ _ _ ?_
    intro p hp
    have := deepseekPlaced_inside hp
    simp only [Function.comp_apply, deepseekCell]
    omega
  rw [hbottom, hright]

end Table

/-! ## The report -/

/-- The truncations a writer has reported so far. -/
def LayoutWriter.truncations (w : LayoutWriter) : List PageWarning :=
  (w.warnings.getD []).filter fun warning => warning.code == .tableTruncated

/-- The data of a table item. -/
def LayoutWriter.tableData (w : LayoutWriter) (ref : BodyChild) : Option TableData :=
  w.doc.tables[ref.index]?.bind TableItem.data

section Report
variable (page : PageContext) (byteSizeLong : TableCell → Nat) (w : LayoutWriter)
    (noted : List PageWarning)
  (box : Option BoundingBox) (parent : Option BodyChild) (cells : List SpanCell)

theorem fillSpanTable_nil :
    fillSpanTable byteSizeLong [] = (⟨0, 0, [], []⟩, ⟨0, 0, false, false⟩) := rfl

/-- A table is reported exactly when the caps cut it. -/
theorem table_reports :
    (LayoutWriter.table page byteSizeLong { w with warnings := some noted } box parent
      cells).1.truncations =
        LayoutWriter.truncations { w with warnings := some noted } ↔
      (fillSpanTable byteSizeLong cells).2.truncated = false := by
  unfold LayoutWriter.table
  split
  · rename_i hempty
    rw [List.isEmpty_iff.1 hempty, fillSpanTable_nil]
    simp [LayoutWriter.truncations, LayoutWriter.addEntry]
  · simp only [LayoutWriter.truncations, LayoutWriter.addEntry, noteTableCut]
    cases (fillSpanTable byteSizeLong cells).2.truncated <;>
    cases (fillSpanTable byteSizeLong cells).2.gridOmitted <;>
    simp [addWarning]

theorem table_data :
    (LayoutWriter.table page byteSizeLong { w with warnings := some noted } box parent
      cells).1.tableData
        (LayoutWriter.table page byteSizeLong { w with warnings := some noted } box parent
          cells).2 =
      some (fillSpanTable byteSizeLong cells).1 := by
  unfold LayoutWriter.table
  split
  · rename_i hempty
    rw [List.isEmpty_iff.1 hempty, fillSpanTable_nil]
    simp [LayoutWriter.tableData, LayoutWriter.addEntry, Document.addTables]
  · simp [LayoutWriter.tableData, LayoutWriter.addEntry, Document.addTables]

/-- A DeepSeek table that is not reported holds one cell for each cell element,
in order, with its text. -/
def PassesComplete (content : Bytes) (rows : List MarkupNode) : Prop :=
  (LayoutWriter.table page byteSizeLong { w with warnings := some noted } box parent
      (deepseekTableCells content)).1.truncations =
    LayoutWriter.truncations { w with warnings := some noted } →
  ((LayoutWriter.table page byteSizeLong { w with warnings := some noted } box parent
      (deepseekTableCells content)).1.tableData
    (LayoutWriter.table page byteSizeLong { w with warnings := some noted } box parent
      (deepseekTableCells content)).2).map (fun data => data.tableCells.map TableCell.text) =
    some ((rows.flatMap fun row => row.children.filter isCell).map fun node => trim (rawText node))

/-- **When a DeepSeek table without a report is complete**: exactly when each
cell of the table's layout starts before the widest row's colspan sum (and
column 1000), or what is placed before such cells exceeds the caps and is
reported for that. -/
theorem deepseek_complete_iff {content html : Bytes} {gridRows : List (List RawCell)}
    (hhtml : tableHtml content = some html) (hrows : collectRows (parseMarkup .html html) ≠ [])
    (hspans : ((collectRows (parseMarkup .html html)).mapM fun row => rawCells row.children) =
      some gridRows) :
    PassesComplete page byteSizeLong w noted box parent content
      (collectRows (parseMarkup .html html)) ↔
      (∀ p ∈ place free 0 (deepseekBoxes gridRows) ∅, p.col < deepseekWidth gridRows) ∨
        OverCaps (min (bottom (deepseekPlaced gridRows)) gridRows.length)
          (min (right (deepseekPlaced gridRows)) (deepseekWidth gridRows)) := by
  have hwidth : (∀ p ∈ place free 0 (deepseekBoxes gridRows) ∅, p.col < deepseekWidth gridRows) ↔
      (deepseekPlaced gridRows).length = (deepseekBoxes gridRows).flatten.length := by
    rw [deepseekPlaced, place_complete]
    simp [pastWidth]
  have hnodes :
    (collectRows (parseMarkup .html html)).flatMap (fun row => row.children.filter isCell) =
      (deepseekBoxes gridRows).flatten.map Box.value := by
    rw [← (gridRows_spec hspans).2.1, deepseekBoxes, ← List.map_flatten, List.map_map]
    rfl
  rw [PassesComplete, table_reports, table_data, hwidth,
    ← deepseek_truncated hhtml hrows hspans byteSizeLong, hnodes]
  cases hcut : (fillSpanTable byteSizeLong (deepseekTableCells content)).2.truncated with
  | true => simp
  | false =>
    simp only [forall_const, Bool.false_eq_true, or_false, Option.map_some, Option.some.injEq,
      deepseek_whole hhtml hrows hspans byteSizeLong hcut]
    constructor
    · intro h
      have hlength := congrArg List.length h
      rwa [List.length_map, List.length_map, List.length_map] at hlength
    · intro h
      have hboxes : (deepseekPlaced gridRows).map Placed.box =
        (deepseekBoxes gridRows).flatten := by
        rw [deepseekPlaced, place_eq_free _ _ _ _ ((place_complete _ _ _ _).1 h), place_free_boxes]
      rw [← hboxes, List.map_map, List.map_map]
      rfl

end Report

theorem rows_ne_nil {rows : List MarkupNode} (h : rows.isEmpty = false) : rows ≠ [] := by
  intro hnil
  rw [hnil] at h
  cases h

/-- Two cells side by side: no cell is in another's way. -/
theorem deepseek_complete_pair : ∃ gridRows,
    ((collectRows (parseMarkup .html (ascii "<table><tr><td>a</td><td>b</td></tr></table>"))).mapM
      fun row => rawCells row.children) = some gridRows ∧
    ((∀ p ∈ place free 0 (deepseekBoxes gridRows) ∅, p.col < deepseekWidth gridRows) ∨
      OverCaps (min (bottom (deepseekPlaced gridRows)) gridRows.length)
        (min (right (deepseekPlaced gridRows)) (deepseekWidth gridRows))) := by
  have hsome :
    ((collectRows (parseMarkup .html (ascii "<table><tr><td>a</td><td>b</td></tr></table>"))).mapM
      fun row => rawCells row.children).isSome = true := by decide +kernel
  obtain ⟨gridRows, hgrid⟩ := Option.isSome_iff_exists.1 hsome
  refine ⟨gridRows, hgrid, (@deepseek_complete_iff samplePage (fun cell => cell.text.length + 20)
    { warnings := none } [] none none
      (ascii "<table><tr><td>a</td><td>b</td></tr></table>") _ gridRows
    (by decide +kernel) (rows_ne_nil (by decide +kernel)) hgrid).1 ?_⟩
  rw [PassesComplete, table_reports, table_data]
  intro _
  decide +kernel

/-- The second row's cell finds its only column taken from above: it is dropped,
and the table passes for complete. -/
theorem deepseek_drop_unreported :
    ¬ ∀ (page : PageContext) (byteSizeLong : TableCell → Nat) (w : LayoutWriter)
      (noted : List PageWarning)
      (box : Option BoundingBox) (parent : Option BodyChild) (content html : Bytes)
      (gridRows : List (List RawCell)), tableHtml content = some html →
      collectRows (parseMarkup .html html) ≠ [] →
      ((collectRows (parseMarkup .html html)).mapM fun row => rawCells row.children) =
        some gridRows →
      PassesComplete page byteSizeLong w noted box parent content
        (collectRows (parseMarkup .html html)) := by
  intro h
  have hsome : ((collectRows (parseMarkup .html
      (ascii "<table><tr><td rowspan=\"2\">a</td></tr><tr><td>b</td></tr></table>"))).mapM
      fun row => rawCells row.children).isSome = true := by decide +kernel
  obtain ⟨gridRows, hgrid⟩ := Option.isSome_iff_exists.1 hsome
  have hrun := h samplePage (fun cell => cell.text.length + 20) { warnings := none } [] none none
    (ascii "<table><tr><td rowspan=\"2\">a</td></tr><tr><td>b</td></tr></table>")
    (ascii "<table><tr><td rowspan=\"2\">a</td></tr><tr><td>b</td></tr></table>") gridRows
    (by decide +kernel) (rows_ne_nil (by decide +kernel)) hgrid
  rw [PassesComplete, table_reports, table_data] at hrun
  have htexts := hrun (by decide +kernel)
  revert htexts
  decide +kernel

end VlmConvert.L3

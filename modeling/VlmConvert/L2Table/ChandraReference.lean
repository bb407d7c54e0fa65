import VlmConvert.L2Table.HtmlLayout
import VlmConvert.L2Table.SpanTable

/-!
# The naive placement of an HTML table

What `chandraTableCells` is meant to compute: rows in order, each cell at the
least column behind its predecessor that no earlier cell covers, with the
covered positions kept as a set. The code keeps one number per column, the
first free row.

`referenceRows` is the table's own structure: each row with the end of its
row group, or of the table.

Result: `chandra_refines`.
-/
namespace VlmConvert.L2

open Bytes L1 Placement

/-! ## The reference -/

/-- A row, whether it is in a `thead`, and the row behind the last of its
group. -/
structure GroupedRow where
  node : MarkupNode
  inHeader : Bool
  stop : Nat

def isRowGroup (node : MarkupNode) : Bool :=
  !node.isText &&
    (node.tag == ascii "thead" || node.tag == ascii "tbody" || node.tag == ascii "tfoot")

/-- The rows under the children of a table of `total` rows, from row `first`
on. A row outside of a group may span down to the table's end. -/
def referenceRows (total : Nat) : Nat → List MarkupNode → List GroupedRow
  | _, [] => []
  | first, child :: children =>
    if isRow child then ⟨child, false, total⟩ :: referenceRows total (first + 1) children
    else if isRowGroup child then
      let group := child.children.filter isRow
      group.map (fun row => ⟨row, child.tag == ascii "thead", first + group.length⟩) ++
        referenceRows total (first + group.length) children
    else referenceRows total first children

/-- The cells of the rows, each with the rows left in its group. -/
def referenceBoxes : Nat → List GroupedRow → List (List (Box HtmlElement))
  | _, [] => []
  | r, row :: rows =>
    (row.node.children.filter isCell).map (chandraBox (row.stop - r) row.inHeader) ::
      referenceBoxes (r + 1) rows

def groupedRows (table : MarkupNode) : List GroupedRow :=
  referenceRows (tableRows table).length 0 table.children

/-- The placement with an explicit set of covered positions. -/
def referencePlacement (table : MarkupNode) : List (Placed HtmlElement) :=
  place free 0 (referenceBoxes 0 (groupedRows table)) ∅

/-! ## The code's rows are the reference's -/

/-- A row of the code, its group's end filled in. -/
def groupedRow (total : Nat) (row : ChandraRow) : GroupedRow :=
  ⟨row.node, row.inHeader, if row.groupEnd ≠ 0 then row.groupEnd else total⟩

theorem addRows_eq (rows : List ChandraRow) (child : MarkupNode) :
    addRows rows child = rows ++
      if isRow child then [⟨child, false, 0⟩]
      else if isRowGroup child then (child.children.filter isRow).map fun row =>
        ⟨row, child.tag == ascii "thead", rows.length + (child.children.filter isRow).length⟩
      else [] := by
  have hrow : isRow child = (!child.isText && child.tag == ascii "tr") := rfl
  rw [addRows, hrow, isRowGroup]
  cases child.isText with
  | true => simp
  | false =>
    cases child.tag == ascii "tr" with
    | true => simp
    | false =>
      simp only [Bool.not_false, Bool.true_and, Bool.false_eq_true, if_false]
      split
      · rfl
      · exact (List.append_nil rows).symm

theorem addRows_grouped (total : Nat) (children : List MarkupNode) : ∀ rows : List ChandraRow,
    (children.foldl addRows rows).map (groupedRow total) =
      rows.map (groupedRow total) ++ referenceRows total rows.length children := by
  induction children with
  | nil => intro rows; simp [referenceRows]
  | cons child children ih =>
    intro rows
    rw [List.foldl_cons, ih, addRows_eq]
    simp only [referenceRows]
    split
    · simp [groupedRow]
    · split
      · have hends : ∀ row ∈ child.children.filter isRow, groupedRow total
            ⟨row, child.tag == ascii "thead", rows.length + (child.children.filter isRow).length⟩ =
            ⟨row, child.tag == ascii "thead",
              rows.length + (child.children.filter isRow).length⟩ := by
          intro row hmem
          have hpos := List.length_pos_of_mem hmem
          rw [groupedRow, if_pos (by simp only [ne_eq]; omega)]
        rw [List.map_append, List.map_map, List.append_assoc, List.length_append, List.length_map]
        exact congrArg _ (congrArg (· ++ _) (List.map_congr_left hends))
      · rw [List.append_nil]

theorem referenceBoxes_chandra (total : Nat) (rows : List ChandraRow) : ∀ r,
    referenceBoxes r (rows.map (groupedRow total)) = chandraBoxesFrom total r rows := by
  induction rows with
  | nil => intro r; rfl
  | cons row rows ih =>
    intro r
    rw [List.map_cons, referenceBoxes, chandraBoxesFrom, ih]
    rfl

theorem groupedRows_eq (table : MarkupNode) :
    groupedRows table = (chandraRows table).map (groupedRow (chandraRows table).length) := by
  have hlen : (chandraRows table).length = (tableRows table).length := by
    rw [← chandraRows_node, List.length_map]
  rw [groupedRows, hlen, chandraRows, addRows_grouped]
  rfl

theorem referencePlacement_eq (table : MarkupNode) :
    referencePlacement table = place free 0 (chandraBoxes table) ∅ := by
  rw [referencePlacement, groupedRows_eq, referenceBoxes_chandra, chandraBoxes]

/-! ## Refinement -/

def SpanCell.Covers (cell : SpanCell) (r c : Nat) : Prop :=
  cell.row ≤ r ∧ r < cell.row + cell.rowSpan ∧ cell.col ≤ c ∧ c < cell.col + cell.colSpan

theorem mem_referenceBoxes :
    ∀ {rows : List GroupedRow} {r i : Nat} {boxes : List (Box HtmlElement)},
    (referenceBoxes r rows)[i]? = some boxes → ∃ row, rows[i]? = some row ∧
      ∀ box ∈ boxes, ∃ node, box = chandraBox (row.stop - (r + i)) row.inHeader node := by
  intro rows
  induction rows with
  | nil => intro r i boxes h; simp [referenceBoxes] at h
  | cons row rows ih =>
    intro r i boxes h
    cases i with
    | zero =>
      simp only [referenceBoxes, List.getElem?_cons_zero, Option.some.injEq] at h
      refine ⟨row, rfl, fun box hbox => ?_⟩
      rw [← h] at hbox
      obtain ⟨node, -, rfl⟩ := List.mem_map.1 hbox
      exact ⟨node, rfl⟩
    | succ i =>
      rw [referenceBoxes, List.getElem?_cons_succ] at h
      obtain ⟨row', hrow, hall⟩ := ih h
      refine ⟨row', by rwa [List.getElem?_cons_succ], ?_⟩
      rwa [show r + (i + 1) = r + 1 + i by omega]

theorem chandraBox_height {remaining : Nat} (h : 1 ≤ remaining) (inHeader : Bool)
    (node : MarkupNode) :
    1 ≤ (chandraBox remaining inHeader node).height ∧
      (chandraBox remaining inHeader node).height ≤ remaining := by
  simp only [chandraBox]
  split
  · exact ⟨h, Nat.le_refl _⟩
  · exact parseSpan_bounds _ h

/-- A group ends behind each of its rows. -/
theorem groupedRows_stop {table : MarkupNode} {i : Nat} {row : GroupedRow}
    (h : (groupedRows table)[i]? = some row) : i < row.stop := by
  rw [groupedRows_eq, List.getElem?_map] at h
  obtain ⟨source, hsource, rfl⟩ := Option.map_eq_some_iff.1 h
  have hlt := (List.getElem?_eq_some_iff.1 hsource).1
  have hgroup := groupsEnd_chandraRows table i source hsource
  simp only [groupedRow]
  split <;> omega

/-- **Chandra's reader is the naive placement** on every table where no cell
reaches the column guard. -/
theorem chandra_refines (table : MarkupNode)
    (hguard : ∀ p ∈ referencePlacement table, ¬ p.col + p.box.width > kMaxTableCols * 4) :
    chandraTableCells table = (referencePlacement table).map chandraCell ∧
      (chandraTableCells table).Pairwise SpanCell.Before ∧
      (∀ cell ∈ chandraTableCells table, ∃ row, (groupedRows table)[cell.row]? = some row ∧
        cell.row + cell.rowSpan ≤ row.stop) ∧
      (chandraTableCells table).Pairwise fun a b => ¬ a.Covers b.row b.col ∧
        ¬ b.Covers a.row a.col := by
  have hcells : chandraTableCells table = (referencePlacement table).map chandraCell := by
    rw [chandraTableCells_place, referencePlacement_eq,
      place_eq_free pastGuard _ 0 ∅ fun p hp =>
        decide_eq_false (hguard p (referencePlacement_eq table ▸ hp))]
  have hapart : (referencePlacement table).Pairwise Apart := place_apart free _ 0 ∅
  have hwidth : ∀ p ∈ referencePlacement table, 1 ≤ p.box.width := by
    intro p hp
    rw [referencePlacement_eq] at hp
    rw [(chandraBoxes_spans table p.box (mem_place free hp)).2]
    exact (parseSpan_bounds _ (by decide)).1
  refine ⟨hcells, ?_, ?_, ?_⟩
  · rw [hcells, List.pairwise_map]
    refine hapart.imp_of_mem fun {p q} hp _ h => ?_
    have := hwidth p hp
    rcases h.1 with hrow | ⟨hrow, hcol⟩
    · exact .inl hrow
    · exact .inr ⟨hrow, by simp only [chandraCell]; omega⟩
  · intro cell hcell
    rw [hcells] at hcell
    obtain ⟨p, hp, rfl⟩ := List.mem_map.1 hcell
    obtain ⟨boxes, hget, hbox⟩ := mem_place_boxes free hp
    obtain ⟨row, hrow, hall⟩ := mem_referenceBoxes hget
    obtain ⟨node, hnode⟩ := hall p.box hbox
    have hstop := groupedRows_stop hrow
    rw [Nat.sub_zero] at hrow hstop
    refine ⟨row, hrow, ?_⟩
    have hheight := (chandraBox_height (show 1 ≤ row.stop - (0 + (p.row - 0)) by omega)
      row.inHeader node).2
    rw [← hnode] at hheight
    simp only [chandraCell]
    omega
  · rw [hcells, List.pairwise_map]
    refine hapart.imp_of_mem fun {p q} hp _ h => ?_
    have := hwidth p hp
    refine ⟨fun hcov => h.2 (mem_positions.2 ?_), fun hcov => ?_⟩
    · exact ⟨⟨hcov.1, hcov.2.1⟩, hcov.2.2⟩
    · have h1 : q.row ≤ p.row := hcov.1
      have h2 : q.col ≤ p.col := hcov.2.2.1
      rcases h.1 with hrow | ⟨hrow, hcol⟩ <;> omega

/-- A row group whose first cell asks for more rows than it has, beside a cell
that overlaps it in the second row, and a row below. -/
def sampleTable : MarkupNode :=
  .element (ascii "table") [] [
    .element (ascii "thead") [] [
      .element (ascii "tr") [] [
        .element (ascii "th") [] [.text (ascii "a")],
        .element (ascii "th") [(ascii "rowspan", ascii "9")] [.text (ascii "b")]],
      .element (ascii "tr") [] [
        .element (ascii "td") [(ascii "colspan", ascii "2")] [.text (ascii "c")],
        .element (ascii "td") [(ascii "rowspan", ascii "0")] [.text (ascii "d")]]],
    .element (ascii "tr") [] [.element (ascii "td") [] [.text (ascii "e")]]]

theorem chandra_refines_sample :
    (chandraTableCells sampleTable).map
      (fun cell => (cell.row, cell.col, cell.rowSpan, cell.colSpan)) =
        [(0, 0, 1, 1), (0, 1, 2, 1), (1, 0, 1, 2), (1, 2, 1, 1), (2, 0, 1, 1)] ∧
      chandraTableCells sampleTable = (referencePlacement sampleTable).map chandraCell := by
  have hlength : (place pastGuard 0 (chandraBoxes sampleTable) ∅).length =
      (chandraBoxes sampleTable).flatten.length := by
    rw [← List.length_map chandraCell, ← chandraTableCells_place]
    decide
  refine ⟨by decide, (chandra_refines sampleTable fun p hp => ?_).1⟩
  rw [referencePlacement_eq] at hp
  exact of_decide_eq_false ((place_complete pastGuard _ 0 ∅).1 hlength p hp)

end VlmConvert.L2

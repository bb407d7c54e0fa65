import VlmConvert.Core.Placement
import VlmConvert.L2Table.HtmlTable

/-!
# How the HTML readers place cells

Both readers are row-by-row placements (`Core.Placement`) that differ in where
a row stops: `chandraTableCells` at a cell that would end past column 1000,
`deepseekTableCells` at a cell that starts past the widest row's colspan sum.
Stopping is silent; only the caps of `fillSpanTable` are reported.

Results:
* `chandraTableCells_place`, `deepseekFrom_place`: each reader is a placement.
* `fillSpanTable_texts`: a table that is not cut keeps every cell.
* `chandra_complete_iff`: when a Chandra table without a report is complete.
-/
namespace VlmConvert.L2

open Bytes L1 Placement

/-! ## The rows of a table -/

/-- The rows: directly under the table, or in one of its row groups. -/
def tableRows (table : MarkupNode) : List MarkupNode :=
  table.children.flatMap fun child =>
    if isRow child then [child]
    else if !child.isText && (child.tag == ascii "thead" || child.tag == ascii "tbody" ||
      child.tag == ascii "tfoot") then child.children.filter isRow
    else []

/-- The cells of all rows, in source order. -/
def tableElements (table : MarkupNode) : List MarkupNode :=
  (tableRows table).flatMap fun row => row.children.filter isCell

theorem addRows_node (rows : List ChandraRow) (child : MarkupNode) :
    (addRows rows child).map ChandraRow.node = rows.map ChandraRow.node ++
      if isRow child then [child]
      else if !child.isText && (child.tag == ascii "thead" || child.tag == ascii "tbody" ||
        child.tag == ascii "tfoot") then child.children.filter isRow
      else [] := by
  unfold addRows
  cases htext : child.isText with
  | true => simp [isRow, htext]
  | false =>
    cases hrow : child.tag == ascii "tr" with
    | true => simp [isRow, htext, hrow]
    | false =>
      simp only [isRow, htext, hrow, Bool.false_eq_true, if_false, Bool.not_false, Bool.true_and]
      split
      · simp [Function.comp_def]
      · simp

theorem chandraRows_node (table : MarkupNode) :
    (chandraRows table).map ChandraRow.node = tableRows table := by
  have hrows : ∀ (children : List MarkupNode) (rows : List ChandraRow),
      (children.foldl addRows rows).map ChandraRow.node =
        rows.map ChandraRow.node ++ children.flatMap fun child =>
          if isRow child then [child]
          else if !child.isText && (child.tag == ascii "thead" || child.tag == ascii "tbody" ||
            child.tag == ascii "tfoot") then child.children.filter isRow
          else [] := by
    intro children
    induction children with
    | nil => intro rows; simp
    | cons child children ih =>
      intro rows
      rw [List.foldl_cons, ih, addRows_node, List.flatMap_cons, List.append_assoc]
  exact hrows table.children []

/-- Each row group ends behind its rows; 0 stands for the table's end. -/
def GroupsEnd (rows : List ChandraRow) : Prop :=
  ∀ (i : Nat) (row : ChandraRow), rows[i]? = some row → row.groupEnd = 0 ∨ i < row.groupEnd

theorem GroupsEnd.addRows {rows : List ChandraRow} (h : GroupsEnd rows) (child : MarkupNode) :
    GroupsEnd (addRows rows child) := by
  have hadded : ∀ added : List ChandraRow,
      (∀ row ∈ added, row.groupEnd = 0 ∨ row.groupEnd = rows.length + added.length) →
      GroupsEnd (rows ++ added) := by
    intro added hall i row hi
    rw [List.getElem?_append] at hi
    split at hi
    · exact h i row hi
    · have hlt := (List.getElem?_eq_some_iff.1 hi).1
      rcases hall row (List.mem_of_getElem? hi) with hzero | hend
      · exact .inl hzero
      · exact .inr (by omega)
  unfold L2.addRows
  split
  · exact h
  · split
    · exact hadded _ (by simp)
    · split
      · refine hadded _ ?_
        intro row hrow
        obtain ⟨node, -, rfl⟩ := List.mem_map.1 hrow
        exact .inr (by simp)
      · exact h

theorem groupsEnd_chandraRows (table : MarkupNode) : GroupsEnd (chandraRows table) := by
  have hfold : ∀ (children : List MarkupNode) {rows : List ChandraRow}, GroupsEnd rows →
      GroupsEnd (children.foldl addRows rows) := by
    intro children
    induction children with
    | nil => intro rows h; exact h
    | cons child children ih => intro rows h; exact ih (h.addRows child)
  exact hfold table.children (by intro i row hi; simp at hi)

/-! ## Chandra -/

/-- The element of a cell, and whether its row is in a `thead`. -/
structure HtmlElement where
  node : MarkupNode
  inHeader : Bool

/-- A cell's spans, with `remaining` rows left in its group. -/
def chandraBox (remaining : Nat) (inHeader : Bool) (node : MarkupNode) : Box HtmlElement where
  height := if node.attr (ascii "rowspan") [] == ascii "0" then remaining
    else parseSpan (node.attr (ascii "rowspan") (ascii "1")) remaining
  width := parseSpan (node.attr (ascii "colspan") (ascii "1")) kMaxTableCells
  value := ⟨node, inHeader⟩

/-- The boxes of the rows from `rowIndex` on. -/
def chandraBoxesFrom (numRows : Nat) : Nat → List ChandraRow → List (List (Box HtmlElement))
  | _, [] => []
  | rowIndex, row :: rows =>
    (row.node.children.filter isCell).map
        (chandraBox ((if row.groupEnd ≠ 0 then row.groupEnd else numRows) - rowIndex)
          row.inHeader) ::
      chandraBoxesFrom numRows (rowIndex + 1) rows

def chandraBoxes (table : MarkupNode) : List (List (Box HtmlElement)) :=
  chandraBoxesFrom (chandraRows table).length 0 (chandraRows table)

/-- The cell of a placed box. -/
def chandraCell (p : Placed HtmlElement) : SpanCell :=
  let node := p.box.value.node
  let th := node.tag == ascii "th"
  { row := p.row
    col := p.col
    rowSpan := p.box.height
    colSpan := p.box.width
    text := collapseWhitespace (htmlText node)
    columnHeader := node.attr (ascii "scope") [] == ascii "col" ||
      (th && (p.box.value.inHeader || p.row == 0))
    rowHeader := node.attr (ascii "scope") [] == ascii "row" ||
      (th && p.col == 0 && decide (p.row > 0) && !p.box.value.inHeader) }

/-- Far past the column cap. -/
def pastGuard (col : Nat) (box : Box HtmlElement) : Bool :=
  decide (col + box.width > kMaxTableCols * 4)

/-- From row `r` on, the occupied columns are the covered positions. -/
def Occupies (covered : Finset (Nat × Nat)) (occupied : List Nat) (r : Nat) : Prop :=
  ∀ r' c, r ≤ r' → ((r', c) ∈ covered ↔ r' < occupied.getD c 0)

section Occupies
variable {covered : Finset (Nat × Nat)} {occupied : List Nat} {r : Nat}

theorem Occupies.mono (h : Occupies covered occupied r) {r' : Nat} (hr : r ≤ r') :
    Occupies covered occupied r' := fun s c hs => h s c (hr.trans hs)

theorem Occupies.leastFree (h : Occupies covered occupied r) (start : Nat) :
    start + ((occupied.drop start).takeWhile fun until_ => decide (r < until_)).length =
      leastFree covered r start := by
  refine chandra_skip (le_leastFree covered r start) ?_ ?_
  · intro c h1 h2
    exact (h r c (Nat.le_refl r)).1 (covered_of_lt_leastFree covered r start h1 h2)
  · intro hlt
    exact leastFree_free covered r start ((h r _ (Nat.le_refl r)).2 hlt)

theorem Occupies.occupy (h : Occupies covered occupied r) (col : Nat) (box : Box HtmlElement) :
    Occupies (covered ∪ positions ⟨r, col, box⟩)
      (occupy occupied col box.width (r + box.height)) r := by
  intro r' c hr
  rw [getD_occupy, Finset.mem_union, mem_positions, h r' c hr]
  simp only [hr, true_and]
  split
  · rename_i hin
    simp only [hin, and_self, and_true]
    omega
  · rename_i hout
    simp only [hout, and_false, or_false]

/-- A row of the table is a row of the placement. -/
theorem chandraCells_place (remaining : Nat) (inHeader : Bool) (nodes : List MarkupNode) :
    ∀ {covered : Finset (Nat × Nat)} {occupied : List Nat}, Occupies covered occupied r → ∀ start,
    ∃ occupied', chandraCells r remaining inHeader nodes occupied start =
        ((placeRow pastGuard r ((nodes.filter isCell).map (chandraBox remaining inHeader)) covered
          start).1.map chandraCell, occupied') ∧
      Occupies (placeRow pastGuard r
        ((nodes.filter isCell).map (chandraBox remaining inHeader)) covered
        start).2 occupied' r := by
  induction nodes with
  | nil => intro covered occupied h start; exact ⟨occupied, rfl, h⟩
  | cons node nodes ih =>
    intro covered occupied h start
    cases hcell : isCell node with
    | false =>
      have hskip : (node :: nodes).filter isCell = nodes.filter isCell := by simp [hcell]
      have hread : chandraCells r remaining inHeader (node :: nodes) occupied start =
          chandraCells r remaining inHeader nodes occupied start := by simp [chandraCells, hcell]
      rw [hskip, hread]
      exact ih h start
    | true =>
      have hkeep : ((node :: nodes).filter isCell).map (chandraBox remaining inHeader) =
          chandraBox remaining inHeader node ::
            (nodes.filter isCell).map (chandraBox remaining inHeader) := by simp [hcell]
      rw [hkeep]
      simp only [chandraCells, hcell, Bool.not_true, Bool.false_eq_true, if_false, h.leastFree,
        placeRow]
      cases hstop : pastGuard (leastFree covered r start) (chandraBox remaining inHeader node) with
      | true =>
        have hpast : leastFree covered r start +
            parseSpan (node.attr (ascii "colspan") (ascii "1")) kMaxTableCells >
              kMaxTableCols * 4 := by
          simpa [pastGuard, chandraBox] using hstop
        rw [if_pos hpast]
        exact ⟨occupied, rfl, h⟩
      | false =>
        have hpast : ¬ leastFree covered r start +
            parseSpan (node.attr (ascii "colspan") (ascii "1")) kMaxTableCells >
              kMaxTableCols * 4 := by
          simpa [pastGuard, chandraBox] using hstop
        rw [if_neg hpast]
        obtain ⟨occupied', hread, hocc⟩ := ih
          (h.occupy (leastFree covered r start) (chandraBox remaining inHeader node))
          (leastFree covered r start + (chandraBox remaining inHeader node).width)
        refine ⟨occupied', ?_, hocc⟩
        simp only [chandraBox] at hread ⊢
        rw [hread]
        rfl

end Occupies

theorem chandraFrom_place (numRows : Nat) (rows : List ChandraRow) :
    ∀ {covered : Finset (Nat × Nat)} {occupied : List Nat} {r : Nat}, Occupies covered occupied r →
    chandraFrom numRows r rows occupied =
      (place pastGuard r (chandraBoxesFrom numRows r rows) covered).map chandraCell := by
  induction rows with
  | nil => intro covered occupied r _; rfl
  | cons row rows ih =>
    intro covered occupied r h
    obtain ⟨occupied', hread, hocc⟩ := chandraCells_place
      ((if row.groupEnd ≠ 0 then row.groupEnd else numRows) - r) row.inHeader row.node.children h 0
    simp only [chandraFrom, hread, chandraBoxesFrom, place, List.map_append]
    rw [ih (hocc.mono (Nat.le_succ r))]

/-- **Chandra's reader is a placement** that stops a row past column 1000. -/
theorem chandraTableCells_place (table : MarkupNode) :
    chandraTableCells table = (place pastGuard 0 (chandraBoxes table) ∅).map chandraCell := by
  have hstart : Occupies ∅ [] 0 := by
    intro r c _
    simp
  exact chandraFrom_place _ _ hstart

/-! ## DeepSeek -/

def deepseekBox (raw : RawCell) : Box MarkupNode := ⟨raw.rowSpan, raw.colSpan, raw.node⟩

/-- The cell of a placed box: spans stop at the table's edge. -/
def deepseekCell (numRows numCols : Nat) (p : Placed MarkupNode) : SpanCell :=
  let th := p.box.value.tag == ascii "th"
  { row := p.row
    col := p.col
    rowSpan := min p.box.height (numRows - p.row)
    colSpan := min p.box.width (numCols - p.col)
    text := trim (rawText p.box.value)
    columnHeader := th && p.row == 0
    rowHeader := th && p.col == 0 }

/-- No column of the matrix is left. -/
def pastWidth (numCols col : Nat) (_ : Box MarkupNode) : Bool := decide (col ≥ numCols)

/-- From row `r` on, the matrix marks the covered positions. -/
def Marks (numRows numCols : Nat) (covered : Finset (Nat × Nat)) (taken : List (List Bool))
    (r : Nat) : Prop :=
  ∀ r' c, r ≤ r' → r' < numRows →
    markAt taken r' c = if c < numCols then some (decide ((r', c) ∈ covered)) else none

section Marks
variable {numRows numCols : Nat} {covered : Finset (Nat × Nat)} {taken : List (List Bool)} {r : Nat}

theorem Marks.mono (h : Marks numRows numCols covered taken r) {r' : Nat} (hr : r ≤ r') :
    Marks numRows numCols covered taken r' := fun s c hs => h s c (hr.trans hs)

/-- The cursor finds the least free column, or runs out of columns with it. -/
theorem Marks.leastFree (h : Marks numRows numCols covered taken r) (hr : r < numRows)
    (start : Nat) :
    let col := start + (((taken.getD r []).drop start).takeWhile id).length
    (leastFree covered r start < numCols → col = leastFree covered r start) ∧
      (numCols ≤ leastFree covered r start → numCols ≤ col) := by
  constructor
  · intro hlt
    refine deepseek_skip (le_leastFree covered r start) ?_ ?_
    · intro c h1 h2
      rw [h r c (Nat.le_refl r) hr, if_pos (h2.trans hlt)]
      simpa using covered_of_lt_leastFree covered r start h1 h2
    · rw [h r _ (Nat.le_refl r) hr, if_pos hlt]
      simpa using leastFree_free covered r start
  · intro hpast
    rcases Nat.lt_or_ge start numCols with hstart | hstart
    · refine Nat.le_of_eq (deepseek_skip (Nat.le_of_lt hstart) ?_ ?_).symm
      · intro c h1 h2
        rw [h r c (Nat.le_refl r) hr, if_pos h2]
        simpa using covered_of_lt_leastFree covered r start h1 (h2.trans_le hpast)
      · rw [h r _ (Nat.le_refl r) hr, if_neg (Nat.lt_irrefl _)]
        simp
    · exact hstart.trans (Nat.le_add_right _ _)

theorem Marks.take (h : Marks numRows numCols covered taken r) (col : Nat) (raw : RawCell) :
    Marks numRows numCols (covered ∪ positions ⟨r, col, deepseekBox raw⟩)
      (take taken r col raw.rowSpan raw.colSpan) r := by
  intro r' c hr hr'
  rw [markAt_take, h r' c hr hr']
  by_cases hc : c < numCols
  · simp only [hc, if_true, Option.map_some, Finset.mem_union, mem_positions, deepseekBox, hr,
      true_and]
    by_cases hin : r' < r + raw.rowSpan ∧ col ≤ c ∧ c < col + raw.colSpan
    · simp [hin]
    · simp [hin]
  · simp [hc]

/-- A row of the table is a row of the placement. -/
theorem deepseekCells_place (hr : r < numRows) (raws : List RawCell) :
    ∀ {covered : Finset (Nat × Nat)} {taken : List (List Bool)},
      Marks numRows numCols covered taken r → ∀ start,
    ∃ taken', deepseekCells numRows numCols r raws taken start =
        ((placeRow (pastWidth numCols) r (raws.map deepseekBox) covered start).1.map
          (deepseekCell numRows numCols), taken') ∧
      Marks numRows numCols
        (placeRow (pastWidth numCols) r (raws.map deepseekBox) covered start).2 taken' r := by
  induction raws with
  | nil => intro covered taken h start; exact ⟨taken, rfl, h⟩
  | cons raw raws ih =>
    intro covered taken h start
    obtain ⟨hin, hpast⟩ := h.leastFree hr start
    simp only [deepseekCells, List.map_cons, placeRow]
    cases hstop : pastWidth numCols (leastFree covered r start) (deepseekBox raw) with
    | true =>
      have hcol := hpast (by simpa [pastWidth] using hstop)
      rw [if_pos hcol]
      exact ⟨taken, rfl, h⟩
    | false =>
      have hlt : leastFree covered r start < numCols := by simpa [pastWidth] using hstop
      rw [hin hlt, if_neg (Nat.not_le.2 hlt)]
      obtain ⟨taken', hread, hmarks⟩ := ih (h.take (leastFree covered r start) raw)
        (leastFree covered r start + raw.colSpan)
      refine ⟨taken', ?_, hmarks⟩
      rw [hread]
      rfl

end Marks

/-- **DeepSeek's reader is a placement** that stops a row at its width. -/
theorem deepseekFrom_place {numRows numCols : Nat} (rows : List (List RawCell)) :
    ∀ {covered : Finset (Nat × Nat)} {taken : List (List Bool)} {r : Nat},
      r + rows.length = numRows →
    Marks numRows numCols covered taken r →
    deepseekFrom numRows numCols r rows taken =
      (place (pastWidth numCols) r (rows.map (·.map deepseekBox)) covered).map
        (deepseekCell numRows numCols) := by
  induction rows with
  | nil => intro covered taken r _ _; rfl
  | cons raws rows ih =>
    intro covered taken r hlength h
    rw [List.length_cons] at hlength
    obtain ⟨taken', hread, hmarks⟩ := deepseekCells_place (by omega) raws h 0
    simp only [deepseekFrom, hread, List.map_cons, place, List.map_append]
    rw [ih (by omega) (hmarks.mono (Nat.le_succ r))]

theorem marks_start (numRows numCols : Nat) :
    Marks numRows numCols ∅ (List.replicate numRows (List.replicate numCols false)) 0 := by
  intro r c _ hr
  simp only [markAt, List.getElem?_replicate, hr, if_true, Option.bind_some]
  split <;> simp

/-! ## The layout keeps what is not cut -/

theorem parseSpan_bounds (value : Bytes) {maximum : Nat} (h : 1 ≤ maximum) :
    1 ≤ parseSpan value maximum ∧ parseSpan value maximum ≤ maximum := by
  unfold parseSpan
  dsimp only
  split
  · exact ⟨Nat.le_refl 1, h⟩
  · omega

theorem le_foldl_max {l : List Nat} : ∀ {a x : Nat}, x ≤ a ∨ x ∈ l → x ≤ l.foldl max a := by
  induction l with
  | nil => intro a x h; simpa using h
  | cons b l ih =>
    intro a x h
    rw [List.foldl_cons]
    refine ih ?_
    rcases h with h | h
    · exact .inl (by omega)
    · rcases List.mem_cons.1 h with rfl | h
      · exact .inl (by omega)
      · exact .inr h

/-- The furthest ends of the cells. -/
def cellsBottom (cells : List SpanCell) : Nat := (cells.map fun c => c.row + c.rowSpan).foldl max 0

def cellsRight (cells : List SpanCell) : Nat := (cells.map fun c => c.col + c.colSpan).foldl max 0

section Fill
variable (byteSizeLong : TableCell → Nat) {cells : List SpanCell}

theorem fillSpanTable_truncated (cells : List SpanCell) :
    (fillSpanTable byteSizeLong cells).2.truncated = true ↔
      OverCaps (cellsBottom cells) (cellsRight cells) := by
  rw [← keptTableShape_cut]
  simp [fillSpanTable, cellsBottom, cellsRight]

/-- A table that is not cut keeps every cell, with its spans. -/
theorem fillSpanTable_whole (hspans : ∀ c ∈ cells, 1 ≤ c.rowSpan ∧ 1 ≤ c.colSpan)
    (h : (fillSpanTable byteSizeLong cells).2.truncated = false) :
    (fillSpanTable byteSizeLong cells).1.tableCells.map (fun c => (c.text, c.rowSpan, c.colSpan)) =
      cells.map fun c => (c.text, c.rowSpan, c.colSpan) := by
  have hcaps : ¬ OverCaps (cellsBottom cells) (cellsRight cells) := by
    rw [← fillSpanTable_truncated byteSizeLong, h]
    decide
  simp only [OverCaps, not_or, Nat.not_lt] at hcaps
  have hkept := keptTableShape_eq hcaps.1 hcaps.2.1 hcaps.2.2
  have hends : ∀ c ∈ cells, c.row + c.rowSpan ≤ cellsBottom cells ∧
    c.col + c.colSpan ≤ cellsRight cells :=
    fun c hc => ⟨le_foldl_max (.inr (List.mem_map_of_mem hc)),
      le_foldl_max (.inr (List.mem_map_of_mem hc))⟩
  have htable : (fillSpanTable byteSizeLong cells).1.tableCells =
      cells.map (keptCell (cellsBottom cells) (cellsRight cells)) := by
    have hfill : (fillSpanTable byteSizeLong cells).1.tableCells = (cells.filter fun c =>
        decide (c.row < (keptTableShape (cellsBottom cells) (cellsRight cells)).1 ∧
          c.col < (keptTableShape (cellsBottom cells) (cellsRight cells)).2)).map
        (keptCell (keptTableShape (cellsBottom cells) (cellsRight cells)).1
          (keptTableShape (cellsBottom cells) (cellsRight cells)).2) := rfl
    rw [hfill, hkept, List.filter_eq_self.2]
    intro c hc
    have := hends c hc
    have := hspans c hc
    exact decide_eq_true (by omega)
  rw [htable, List.map_map]
  refine List.map_congr_left ?_
  intro c hc
  obtain ⟨hbottom, hright⟩ := hends c hc
  simp only [Function.comp_apply, keptCell, Nat.min_eq_left hbottom, Nat.min_eq_left hright,
    Nat.add_sub_cancel_left]

end Fill

/-! ## Chandra tables that pass for complete -/

section Complete
variable (table : MarkupNode)

theorem chandraBoxesFrom_nodes (numRows : Nat) (rows : List ChandraRow) : ∀ r,
    (chandraBoxesFrom numRows r rows).flatten.map (fun box => box.value.node) =
      (rows.map ChandraRow.node).flatMap fun row => row.children.filter isCell := by
  induction rows with
  | nil => intro r; rfl
  | cons row rows ih =>
    intro r
    simp only [chandraBoxesFrom, List.flatten_cons, List.map_append, ih, List.map_cons,
      List.flatMap_cons, List.map_map]
    congr 1
    exact List.map_id _

theorem chandraBoxes_nodes :
    (chandraBoxes table).flatten.map (fun box => box.value.node) = tableElements table := by
  rw [chandraBoxes, chandraBoxesFrom_nodes, chandraRows_node]
  rfl

/-- Every box has the spans its element writes, and at least one row. -/
theorem chandraBoxesFrom_spans {numRows : Nat} (rows : List ChandraRow) : ∀ {r : Nat},
    (∀ (i : Nat) (row : ChandraRow), rows[i]? = some row →
      (row.groupEnd = 0 ∨ r + i < row.groupEnd) ∧ r + i < numRows) →
    ∀ box ∈ (chandraBoxesFrom numRows r rows).flatten, 1 ≤ box.height ∧
      box.width = parseSpan (box.value.node.attr (ascii "colspan") (ascii "1")) kMaxTableCells := by
  induction rows with
  | nil => intro r _ box hbox; simp [chandraBoxesFrom] at hbox
  | cons row rows ih =>
    intro r hrows box hbox
    simp only [chandraBoxesFrom, List.flatten_cons, List.mem_append] at hbox
    rcases hbox with hbox | hbox
    · obtain ⟨node, -, rfl⟩ := List.mem_map.1 hbox
      refine ⟨?_, rfl⟩
      obtain ⟨hgroup, hin⟩ := hrows 0 row rfl
      have hremaining : 1 ≤ (if row.groupEnd ≠ 0 then row.groupEnd else numRows) - r := by
        split <;> omega
      simp only [chandraBox]
      split
      · exact hremaining
      · exact (parseSpan_bounds _ hremaining).1
    · refine ih ?_ box hbox
      intro i row' hi
      have := hrows (i + 1) row' hi
      omega

theorem chandraBoxes_spans : ∀ box ∈ (chandraBoxes table).flatten, 1 ≤ box.height ∧
    box.width = parseSpan (box.value.node.attr (ascii "colspan") (ascii "1")) kMaxTableCells := by
  refine chandraBoxesFrom_spans (chandraRows table) ?_
  intro i row hi
  have hlt := (List.getElem?_eq_some_iff.1 hi).1
  have hgroup := groupsEnd_chandraRows table i row hi
  omega

/-- Text and column span of each cell element, as the reader sees them. -/
def elementCells (table : MarkupNode) : List (Bytes × Nat) :=
  (tableElements table).map fun node =>
    (collapseWhitespace (htmlText node),
      parseSpan (node.attr (ascii "colspan") (ascii "1")) kMaxTableCells)

theorem elementCells_boxes : elementCells table = (chandraBoxes table).flatten.map fun box =>
    (collapseWhitespace (htmlText box.value.node), box.width) := by
  rw [elementCells, ← chandraBoxes_nodes, List.map_map]
  refine List.map_congr_left ?_
  intro box hbox
  rw [Function.comp_apply, (chandraBoxes_spans table box hbox).2]

variable (byteSizeLong : TableCell → Nat)

/-- What a table that is not cut holds: the placed boxes. -/
theorem chandra_whole
    (h : (fillSpanTable byteSizeLong (chandraTableCells table)).2.truncated = false) :
    (fillSpanTable byteSizeLong (chandraTableCells table)).1.tableCells.map
      (fun c => (c.text, c.colSpan)) = (place pastGuard 0 (chandraBoxes table) ∅).map fun p =>
        (collapseWhitespace (htmlText p.box.value.node), p.box.width) := by
  have hspans : ∀ c ∈ chandraTableCells table, 1 ≤ c.rowSpan ∧ 1 ≤ c.colSpan := by
    rw [chandraTableCells_place]
    intro c hc
    obtain ⟨p, hp, rfl⟩ := List.mem_map.1 hc
    obtain ⟨hheight, hwidth⟩ := chandraBoxes_spans table p.box (mem_place pastGuard hp)
    refine ⟨hheight, ?_⟩
    show 1 ≤ p.box.width
    rw [hwidth]
    exact (parseSpan_bounds _ (by decide)).1
  have hwhole := congrArg (List.map fun c : Bytes × Nat × Nat => (c.1, c.2.2))
    (fillSpanTable_whole byteSizeLong hspans h)
  rw [List.map_map, List.map_map, chandraTableCells_place, List.map_map] at hwhole
  rw [chandraTableCells_place]
  exact hwhole

/-- **When a Chandra table without a report is complete**: exactly when no cell
of the table's layout ends past column 1000, or what is placed before such
cells exceeds the caps and is reported for that. -/
theorem chandra_complete_iff :
    ((fillSpanTable byteSizeLong (chandraTableCells table)).2.truncated = false →
      (fillSpanTable byteSizeLong (chandraTableCells table)).1.tableCells.map
        (fun c => (c.text, c.colSpan)) = elementCells table) ↔
    (∀ p ∈ place free 0 (chandraBoxes table) ∅, p.col + p.box.width ≤ kMaxTableCols * 4) ∨
      OverCaps (bottom (place pastGuard 0 (chandraBoxes table) ∅))
        (right (place pastGuard 0 (chandraBoxes table) ∅)) := by
  have hguard :
    (∀ p ∈ place free 0 (chandraBoxes table) ∅, p.col + p.box.width ≤ kMaxTableCols * 4) ↔
      (place pastGuard 0 (chandraBoxes table) ∅).length = (chandraBoxes table).flatten.length := by
    rw [place_complete]
    simp [pastGuard]
  have hcaps : OverCaps (bottom (place pastGuard 0 (chandraBoxes table) ∅))
      (right (place pastGuard 0 (chandraBoxes table) ∅)) ↔
      (fillSpanTable byteSizeLong (chandraTableCells table)).2.truncated = true := by
    rw [fillSpanTable_truncated, chandraTableCells_place]
    simp only [cellsBottom, cellsRight, List.map_map]
    rfl
  rw [hguard, hcaps]
  cases hcut : (fillSpanTable byteSizeLong (chandraTableCells table)).2.truncated with
  | true => simp
  | false =>
    simp only [forall_const, Bool.false_eq_true, or_false, chandra_whole table byteSizeLong hcut,
      elementCells_boxes]
    constructor
    · intro h
      have hlength := congrArg List.length h
      rwa [List.length_map, List.length_map] at hlength
    · intro h
      have hboxes : (place pastGuard 0 (chandraBoxes table) ∅).map Placed.box =
          (chandraBoxes table).flatten := by
        rw [place_eq_free pastGuard _ _ _ ((place_complete pastGuard _ _ _).1 h), place_free_boxes]
      rw [← hboxes, List.map_map]
      rfl

end Complete

/-- One cell that asks for 1001 columns: it is dropped, and the empty table
passes for complete. -/
theorem chandra_drop_unreported :
    ¬ ∀ (byteSizeLong : TableCell → Nat) (table : MarkupNode),
      (fillSpanTable byteSizeLong (chandraTableCells table)).2.truncated = false →
      (fillSpanTable byteSizeLong (chandraTableCells table)).1.tableCells.map
        (fun c => (c.text, c.colSpan)) = elementCells table := by
  intro h
  have hcell := h (fun _ => 0) (.element (ascii "table") [] [.element (ascii "tr") []
    [.element (ascii "td") [(ascii "colspan", ascii "1001")] [.text (ascii "x")]]])
      (by decide)
  revert hcell
  decide

end VlmConvert.L2

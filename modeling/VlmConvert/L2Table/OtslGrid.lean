import VlmConvert.L2Table.Otsl
import VlmConvert.L2Table.Grid

/-!
# OTSL tables from any body

`parseOtslGrid` on bodies that encode no table: ragged rows, an `srow` in the
middle of a row, stray fillers, overlapping spans, shapes past the caps.

`otslRows` says what the rows of a token stream are, without counters: `nl`
ends a row, `srow` begins one, other tags are skipped and no row is empty.
The scan's two passes agree with it (`ScanInv`), so the table is read off the
leading part of those rows that fits the caps (`keptRegion`).

Result: `parseOtslGrid_spec`.
-/
namespace VlmConvert.L2

open Bytes

/-! ## The rows of a token stream -/

section Rows
variable {α : Type}

/-- A row, unless it is empty. -/
def flushRow (row : List α) : List (List α) := if row.isEmpty then [] else [row]

theorem widest_flushRow (row : List α) : widest (flushRow row) = row.length := by
  cases row <;> simp [flushRow, widest]

theorem flushRow_concat (row : List α) (x : α) : flushRow (row ++ [x]) = [row ++ [x]] := by
  cases row <;> rfl

end Rows

def isCellTag (tag : Bytes) : Bool := isAnchor tag || isHorizontalFiller tag || isVerticalFiller tag

/-- The rows of a token stream, with `row` begun. -/
def rowsFrom : List OtslToken → List OtslToken → List (List OtslToken)
  | row, [] => flushRow row
  | row, token :: rest =>
    if token.tag = ascii "nl" then flushRow row ++ rowsFrom [] rest
    else if isCellTag token.tag = false then rowsFrom row rest
    else if token.tag = ascii "srow" then flushRow row ++ rowsFrom [token] rest
    else rowsFrom (row ++ [token]) rest

def otslRows (body : Bytes) : List (List OtslToken) := rowsFrom [] (tokens body)

/-- The leading rows and columns within the caps. -/
def keptRegion (rows : List (List OtslToken)) : List (List OtslToken) :=
  let kept := keptTableShape rows.length (widest rows)
  (rows.take kept.1).map (List.take kept.2)

/-! ## The scan -/

/-- The scan stands in `row`, behind the rows `done`. -/
structure ScanInv (done : List (List OtslToken)) (row : List OtslToken) (s : Scan) : Prop where
  row_eq : s.row = done.length
  col_eq : s.col = row.length
  rows_eq : s.rows = (done ++ flushRow row).length
  cols_eq : s.cols = widest (done ++ flushRow row)
  kept : ∀ keptRows keptCols r, r < keptRows →
    (keepRows keptRows keptCols s.visits)[r]? = some (((done ++ [row]).getD r []).take keptCols)

theorem scanInv_start : ScanInv [] [] ⟨0, 0, 0, 0, []⟩ where
  row_eq := rfl
  col_eq := rfl
  rows_eq := rfl
  cols_eq := rfl
  kept := by
    intro keptRows keptCols r hr
    cases r <;> simp [keepRows, hr]

section ScanStep
variable {done : List (List OtslToken)} {row : List OtslToken} {s : Scan}

theorem ScanInv.newline (h : ScanInv done row s) : ScanInv (done ++ flushRow row) [] s.newline := by
  cases row with
  | nil =>
    have hcol : ¬ s.col > 0 := by rw [h.col_eq]; exact Nat.lt_irrefl 0
    have hflush : done ++ flushRow ([] : List OtslToken) = done := List.append_nil _
    rw [Scan.newline, if_neg hcol, hflush]
    exact h
  | cons token row =>
    have hcol : s.col > 0 := by rw [h.col_eq]; exact Nat.succ_pos _
    have hflush : flushRow (token :: row) = [token :: row] := rfl
    have hnil : flushRow ([] : List OtslToken) = [] := rfl
    rw [Scan.newline, if_pos hcol]
    refine ⟨?_, rfl, ?_, ?_, ?_⟩
    · simp only [h.row_eq, hflush, List.length_append, List.length_singleton]
    · simpa only [hnil, List.append_nil] using h.rows_eq
    · simpa only [hnil, List.append_nil] using h.cols_eq
    · intro keptRows keptCols r hr
      have hpad : (done ++ [token :: row] ++ [[]]).getD r [] =
        (done ++ [token :: row]).getD r [] := by
        rw [List.getD_eq_getElem?_getD, List.getD_eq_getElem?_getD]
        rcases Nat.lt_trichotomy r (done ++ [token :: row]).length with hlt | heq | hgt
        · rw [List.getElem?_append_left hlt]
        · rw [heq, List.getElem?_concat_length, List.getElem?_eq_none (Nat.le_refl _)]; rfl
        · rw [List.getElem?_eq_none (by rw [List.length_append, List.length_singleton]; exact hgt),
            List.getElem?_eq_none hgt.le]
      rw [hflush, hpad]
      exact h.kept keptRows keptCols r hr

/-- One more visit, in the row being read. -/
theorem keepRows_concat (keptRows keptCols : Nat) (visits : List (Nat × Nat × OtslToken))
    (v : Nat × Nat × OtslToken) :
    keepRows keptRows keptCols (visits ++ [v]) =
      if v.1 < keptRows ∧ v.2.1 < keptCols then
        (keepRows keptRows keptCols visits).modify v.1 (· ++ [v.2.2])
      else keepRows keptRows keptCols visits := by
  rw [keepRows, List.foldl_append]
  rfl

theorem ScanInv.visit (h : ScanInv done row s) (token : OtslToken) :
    ScanInv done (row ++ [token]) (s.visit token) := by
  have hflush : flushRow (row ++ [token]) = [row ++ [token]] := flushRow_concat row token
  have hsize : (done ++ flushRow row).length ≤ done.length + 1 := by
    rw [List.length_append]
    unfold flushRow
    split <;> simp
  refine ⟨h.row_eq, ?_, ?_, ?_, ?_⟩
  · simp only [Scan.visit, h.col_eq, List.length_append, List.length_singleton]
  · simp only [Scan.visit, h.rows_eq, h.row_eq, hflush]
    rw [Nat.max_eq_right hsize, List.length_append, List.length_singleton]
  · simp only [Scan.visit, h.cols_eq, h.col_eq]
    rw [widest_append, widest_append, widest_flushRow, widest_flushRow, List.length_append,
      List.length_singleton]
    omega
  · intro keptRows keptCols r hr
    have hkept := h.kept keptRows keptCols r hr
    simp only [Scan.visit, keepRows_concat, h.row_eq, h.col_eq]
    by_cases hrow : r = done.length
    · subst hrow
      have hlast : ∀ last : List OtslToken, (done ++ [last]).getD done.length [] = last := by
        intro last; simp [List.getD_eq_getElem?_getD]
      rw [hlast] at hkept ⊢
      split
      · rename_i hin
        rw [List.getElem?_modify_eq, hkept, Option.map_eq_map, Option.map_some,
          List.take_of_length_le hin.2.le, List.take_of_length_le (by simpa using hin.2)]
      · rename_i hout
        rw [hkept, List.take_append_of_le_length (by omega)]
    · have hsame : (done ++ [row ++ [token]]).getD r [] = (done ++ [row]).getD r [] := by
        rw [List.getD_eq_getElem?_getD, List.getD_eq_getElem?_getD]
        rcases Nat.lt_or_gt_of_ne hrow with hlt | hgt
        · rw [List.getElem?_append_left hlt, List.getElem?_append_left hlt]
        · rw [List.getElem?_eq_none (by simpa using hgt),
            List.getElem?_eq_none (by simpa using hgt)]
      rw [hsame]
      split
      · rw [List.getElem?_modify_ne _ _ (Ne.symm hrow)]; exact hkept
      · exact hkept

/-- One token read. -/
theorem ScanInv.step (h : ScanInv done row s) (token : OtslToken) :
    ∃ done' row', ScanInv done' row' (s.step token) ∧
      ∀ rest, done ++ rowsFrom row (token :: rest) = done' ++ rowsFrom row' rest := by
  have hcell :
    (!isAnchor token.tag && !isHorizontalFiller token.tag && !isVerticalFiller token.tag) =
      !isCellTag token.tag := by simp [isCellTag, Bool.and_assoc]
  simp only [Scan.step, rowsFrom, hcell, beq_iff_eq, Bool.not_eq_true']
  split
  · exact ⟨_, _, h.newline, fun rest => (List.append_assoc _ _ _).symm⟩
  · split
    · exact ⟨_, _, h, fun rest => rfl⟩
    · split
      · exact ⟨_, _, h.newline.visit token, fun rest => (List.append_assoc _ _ _).symm⟩
      · exact ⟨_, _, h.visit token, fun rest => rfl⟩

theorem ScanInv.run (toks : List OtslToken) :
    ∀ {done : List (List OtslToken)} {row : List OtslToken}
    {s : Scan}, ScanInv done row s →
    ∃ done' row', ScanInv done' row' (toks.foldl Scan.step s) ∧
      done ++ rowsFrom row toks = done' ++ flushRow row' := by
  induction toks with
  | nil => intro done row s h; exact ⟨done, row, h, rfl⟩
  | cons token toks ih =>
    intro done row s h
    obtain ⟨done', row', h', hrows⟩ := h.step token
    obtain ⟨done'', row'', h'', hrows'⟩ := ih h'
    exact ⟨done'', row'', h'', (hrows toks).trans hrows'⟩

end ScanStep

/-- **Both passes of the scan**: the shape, and the tokens within the caps. -/
theorem scanRows_spec (body : Bytes) :
    (scanRows body).rows = (otslRows body).length ∧ (scanRows body).cols = widest (otslRows body) ∧
      keepRows (keptTableShape (otslRows body).length (widest (otslRows body))).1
          (keptTableShape (otslRows body).length (widest (otslRows body))).2
            (scanRows body).visits =
        keptRegion (otslRows body) := by
  obtain ⟨done, row, hinv, hrows⟩ := ScanInv.run (tokens body) scanInv_start
  rw [List.nil_append] at hrows
  have hrows : otslRows body = done ++ flushRow row := hrows
  rw [hrows]
  refine ⟨hinv.rows_eq, hinv.cols_eq, ?_⟩
  have hle := (keptTableShape_le (done ++ flushRow row).length (widest (done ++ flushRow row))).1
  unfold keptRegion
  dsimp only
  generalize keptTableShape (done ++ flushRow row).length (widest (done ++ flushRow row)) = kept
    at hle ⊢
  apply List.ext_getElem?
  intro r
  by_cases hr : r < kept.1
  · have hget : (done ++ flushRow row)[r]? = some ((done ++ [row]).getD r []) := by
      cases row with
      | nil =>
        have hlt : r < done.length := by simpa [flushRow] using Nat.lt_of_lt_of_le hr hle
        simp [flushRow, List.getD_eq_getElem?_getD, List.getElem?_append_left hlt, hlt]
      | cons token row =>
        have hlt : r < (done ++ [token :: row]).length := Nat.lt_of_lt_of_le hr hle
        rw [List.getD_eq_getElem?_getD, flushRow, if_neg (by simp), List.getElem?_eq_getElem hlt]
        rfl
    have hkept := hinv.kept kept.1 kept.2 r hr
    rw [scanRows, hkept, List.getElem?_map, List.getElem?_take_of_lt hr, hget]
    rfl
  · rw [List.getElem?_eq_none (by rw [length_keepRows]; omega),
      List.getElem?_eq_none (by rw [List.length_map, List.length_take]; omega)]

/-! ## Anchors and their runs -/

/-- `p` holds from behind `start` on for `span - 1` positions, and no longer. -/
def MaximalRun (p : Nat → Prop) (start span : Nat) : Prop :=
  1 ≤ span ∧ (∀ k, start < k → k < start + span → p k) ∧ ¬ p (start + span)

theorem takeWhile_drop_run {α : Type} (p : α → Bool) : ∀ (l : List α) (a : Nat),
    (∀ k, a ≤ k → k < a + ((l.drop a).takeWhile p).length → ∃ x, l[k]? = some x ∧ p x = true) ∧
      ¬ ∃ x, l[a + ((l.drop a).takeWhile p).length]? = some x ∧ p x = true := by
  intro l a
  have hsplit : l.drop a = (l.drop a).takeWhile p ++ (l.drop a).dropWhile p :=
    List.takeWhile_append_dropWhile.symm
  constructor
  · intro k hk1 hk2
    have hlt : k - a < ((l.drop a).takeWhile p).length := by omega
    have hget : l[k]? = ((l.drop a).takeWhile p)[k - a]? := by
      rw [← List.getElem?_append_left hlt, ← hsplit, List.getElem?_drop, Nat.add_sub_cancel' hk1]
    rw [hget, List.getElem?_eq_getElem hlt]
    exact ⟨_, rfl, List.all_eq_true.1 (List.all_takeWhile) _ (List.getElem_mem hlt)⟩
  · rintro ⟨x, hx, hp⟩
    rw [← List.getElem?_drop, hsplit, List.getElem?_append_right (by simp [← hsplit])] at hx
    simp only [← hsplit, Nat.sub_self] at hx
    have hhead : ((l.drop a).dropWhile p).head? = some x := by rwa [List.head?_eq_getElem?]
    have := List.head?_dropWhile_not p (l.drop a)
    rw [hhead] at this
    simp [hp] at this

/-- The token of a position is there and of a kind. -/
def TagAt (rows : List (List OtslToken)) (kind : Bytes → Bool) (r c : Nat) : Prop :=
  ∃ token, entry rows r c = some token ∧ kind token.tag = true

section Anchors
variable {rows : List (List OtslToken)} {r c : Nat} {cell : TableCell}

theorem colSpan_run {row : List OtslToken} (hrow : rows[r]? = some row) :
    MaximalRun (TagAt rows isHorizontalFiller r) c (colSpan row c) := by
  obtain ⟨hrun, hend⟩ := takeWhile_drop_run (fun token : OtslToken => isHorizontalFiller token.tag)
    row (c + 1)
  have hat : ∀ k, TagAt rows isHorizontalFiller r k ↔
      ∃ token, row[k]? = some token ∧ isHorizontalFiller token.tag = true := by
    intro k; simp [TagAt, entry, hrow]
  refine ⟨Nat.le_add_right 1 _, fun k hk1 hk2 => (hat k).2 (hrun k hk1 ?_), ?_⟩
  · rw [colSpan] at hk2; omega
  · rw [hat, colSpan, ← Nat.add_assoc]; exact hend

theorem rowSpan_run :
    MaximalRun (fun k => TagAt rows isVerticalFiller k c) r (rowSpan rows r c) := by
  obtain ⟨hrun, hend⟩ := takeWhile_drop_run (fun row : List OtslToken =>
    (row[c]?.map fun token => isVerticalFiller token.tag).getD false) rows (r + 1)
  have hat : ∀ k, TagAt rows isVerticalFiller k c ↔ ∃ row, rows[k]? = some row ∧
      (row[c]?.map fun token => isVerticalFiller token.tag).getD false = true := by
    intro k
    simp only [TagAt, entry_eq_some]
    constructor
    · rintro ⟨token, ⟨row, hrow, hget⟩, hkind⟩
      exact ⟨row, hrow, by rw [hget]; exact hkind⟩
    · rintro ⟨row, hrow, hkind⟩
      cases hget : row[c]? with
      | none => rw [hget] at hkind; cases hkind
      | some token => rw [hget] at hkind; exact ⟨token, ⟨row, hrow, hget⟩, hkind⟩
  refine ⟨Nat.le_add_right 1 _, fun k hk1 hk2 => (hat k).2 (hrun k hk1 ?_), ?_⟩
  · rw [rowSpan] at hk2; omega
  · refine fun h => hend ((hat _).1 ?_)
    rwa [rowSpan, ← Nat.add_assoc] at h

theorem mem_anchorCells : cell ∈ anchorCells rows ↔ ∃ r c row token, rows[r]? = some row ∧
    row[c]? = some token ∧ isAnchor token.tag = true ∧
      cell = anchorCell token r c (rowSpan rows r c) (colSpan row c) := by
  simp only [anchorCells, List.mem_flatMap, List.mem_range, List.mem_filterMap]
  constructor
  · rintro ⟨r, hr, c, -, hcell⟩
    have hrow : rows[r]? = some (rows.getD r []) := by simp [List.getD_eq_getElem?_getD, hr]
    cases hget : (rows.getD r [])[c]? with
    | none => rw [hget] at hcell; cases hcell
    | some token =>
      simp only [hget] at hcell
      split at hcell
      · exact ⟨r, c, _, token, hrow, hget, ‹_›, (Option.some.inj hcell).symm⟩
      · cases hcell
  · rintro ⟨r, c, row, token, hrow, hget, hanchor, rfl⟩
    have hgetD : rows.getD r [] = row := by simp [List.getD_eq_getElem?_getD, hrow]
    refine ⟨r, (List.getElem?_eq_some_iff.1 hrow).1, c, ?_, ?_⟩
    · rw [hgetD]; exact (List.getElem?_eq_some_iff.1 hget).1
    · simp only [hgetD, hget, hanchor, if_true]

theorem anchorCells_before (rows : List (List OtslToken)) :
    (anchorCells rows).Pairwise TableCell.Before := by
  refine before_rowMajor (fun r c cell hcell => ?_) rows.length fun r => (rows.getD r []).length
  split at hcell
  · cases hcell
  · split at hcell
    · cases hcell; exact ⟨rfl, rfl⟩
    · cases hcell

end Anchors

/-! ## The table of any body -/

/-- The table cell of an anchor token of `rows`: its text and flags, and the
runs of fillers right of and below it. -/
structure AnchorOf (rows : List (List OtslToken)) (cell : TableCell) : Prop where
  token : ∃ token, entry rows cell.startRow cell.startCol = some token ∧ isAnchor token.tag = true ∧
    cell = anchorCell token cell.startRow cell.startCol cell.rowSpan cell.colSpan
  col_span : MaximalRun (TagAt rows isHorizontalFiller cell.startRow) cell.startCol cell.colSpan
  row_span : MaximalRun
    (fun k => TagAt rows isVerticalFiller k cell.startCol) cell.startRow cell.rowSpan

/-- What `parseOtslGrid` makes of the rows of a body. -/
structure OtslTable (byteSizeLong : TableCell → Nat) (rows : List (List OtslToken))
    (data : TableData)
    (cut : TableCut) : Prop where
  caps : data.numRows ≤ kMaxTableRows ∧ data.numCols ≤ kMaxTableCols ∧
    data.numRows * data.numCols ≤ kMaxTableCells
  shape : data.numRows = (keptRegion rows).length ∧ data.numCols = widest (keptRegion rows)
  source : cut.sourceRows = rows.length ∧ cut.sourceCols = widest rows
  truncated : cut.truncated = true ↔ (keptTableShape rows.length (widest rows)).1 < rows.length ∨
    (keptTableShape rows.length (widest rows)).2 < widest rows
  reported : cut.truncated = true ↔ data.numRows < rows.length ∨ data.numCols < widest rows
  row_major : data.tableCells.Pairwise TableCell.Before
  anchors : ∀ r c, (∃ cell ∈ data.tableCells, cell.startRow = r ∧ cell.startCol = c) ↔
    TagAt (keptRegion rows) isAnchor r c
  cells : ∀ cell ∈ data.tableCells,
    AnchorOf (keptRegion rows) cell ∧ cell.Inside data.numRows data.numCols
  grid : cut.gridOmitted = false → IsGrid data.numRows data.numCols data.tableCells data.grid
  omitted : cut.gridOmitted = true → data.grid = []
  cost : (∀ cell ∈ data.tableCells, byteSizeLong cell < maxMessageBytes) →
    (cut.gridOmitted = false ↔ gridCost byteSizeLong data.tableCells ≤ kMaxGridBytes)

section KeptRegion
variable (rows : List (List OtslToken))

theorem length_keptRegion :
    (keptRegion rows).length = (keptTableShape rows.length (widest rows)).1 := by
  rw [keptRegion, List.length_map, List.length_take]
  exact Nat.min_eq_left (keptTableShape_le _ _).1

theorem widest_keptRegion_le :
    widest (keptRegion rows) ≤ (keptTableShape rows.length (widest rows)).2 := by
  rw [widest_le_iff]
  intro row hrow
  obtain ⟨source, -, rfl⟩ := List.mem_map.1 hrow
  rw [List.length_take]
  exact Nat.min_le_left _ _

theorem keptRegion_caps : (keptRegion rows).length ≤ kMaxTableRows ∧
    widest (keptRegion rows) ≤ kMaxTableCols ∧
    (keptRegion rows).length * widest (keptRegion rows) ≤ kMaxTableCells := by
  obtain ⟨h1, h2, h3⟩ := keptTableShape_caps rows.length (widest rows)
  have hcols := widest_keptRegion_le rows
  rw [length_keptRegion]
  exact ⟨h1, hcols.trans h2, (Nat.mul_le_mul (Nat.le_refl _) hcols).trans h3⟩

/-- Rows within the caps are kept whole. -/
theorem keptRegion_whole
    (h : keptTableShape rows.length (widest rows) = (rows.length, widest rows)) :
    keptRegion rows = rows := by
  have hrow : ∀ row ∈ rows, row.take (widest rows) = row :=
    fun row hrow => List.take_of_length_le (widest_le_iff.1 (Nat.le_refl _) row hrow)
  simp only [keptRegion, h, List.take_length]
  exact (List.map_congr_left hrow).trans (List.map_id' rows)

/-- The table is cut exactly when its own shape is smaller than the source's:
a narrow table below a dropped wide row is missing that row. -/
theorem keptRegion_cut_iff : (keptTableShape rows.length (widest rows)).1 < rows.length ∨
      (keptTableShape rows.length (widest rows)).2 < widest rows ↔
    (keptRegion rows).length < rows.length ∨ widest (keptRegion rows) < widest rows := by
  have hcols := widest_keptRegion_le rows
  have hle := keptTableShape_le rows.length (widest rows)
  constructor
  · rintro (h | h)
    · exact .inl (by rw [length_keptRegion]; exact h)
    · exact .inr (Nat.lt_of_le_of_lt hcols h)
  · intro h
    by_contra hkept
    have hwhole : keptRegion rows = rows := keptRegion_whole rows (Prod.ext (by omega) (by omega))
    rw [hwhole] at h
    omega

end KeptRegion

/-- An anchor's run of fillers ends inside the rows. -/
theorem anchorOf_inside {rows : List (List OtslToken)} {cell : TableCell} (h : AnchorOf rows cell) :
    cell.Inside rows.length (widest rows) := by
  obtain ⟨token, hat, -, hcell⟩ := h.token
  obtain ⟨row, hrow, hget⟩ := entry_eq_some.1 hat
  have hend : cell.endRow = cell.startRow + cell.rowSpan ∧
    cell.endCol = cell.startCol + cell.colSpan := by
    rw [hcell]; exact ⟨rfl, rfl⟩
  have hrow_lt := (List.getElem?_eq_some_iff.1 hrow).1
  have hcol_lt := (List.getElem?_eq_some_iff.1 hget).1
  have hwide : row.length ≤ widest rows :=
    widest_le_iff.1 (Nat.le_refl _) row (List.mem_of_getElem? hrow)
  obtain ⟨hr1, hrun, -⟩ := h.row_span
  obtain ⟨hc1, hcrun, -⟩ := h.col_span
  have hbottom : cell.startRow + cell.rowSpan ≤ rows.length := by
    by_cases h1 : cell.rowSpan = 1
    · omega
    · obtain ⟨tok, htok, -⟩ := hrun (cell.startRow + cell.rowSpan - 1) (by omega) (by omega)
      obtain ⟨row', hrow', -⟩ := entry_eq_some.1 htok
      have := (List.getElem?_eq_some_iff.1 hrow').1
      omega
  have hright : cell.startCol + cell.colSpan ≤ row.length := by
    by_cases h1 : cell.colSpan = 1
    · omega
    · obtain ⟨tok, htok, -⟩ := hcrun (cell.startCol + cell.colSpan - 1) (by omega) (by omega)
      obtain ⟨row', hrow', hget'⟩ := entry_eq_some.1 htok
      rw [hrow, Option.some.injEq] at hrow'
      subst hrow'
      have := (List.getElem?_eq_some_iff.1 hget').1
      omega
  exact ⟨by omega, by omega, by omega, by omega⟩

theorem anchorOf_mem {rows : List (List OtslToken)} {cell : TableCell}
    (h : cell ∈ anchorCells rows) :
    AnchorOf rows cell := by
  obtain ⟨r, c, row, token, hrow, hget, hanchor, rfl⟩ := mem_anchorCells.1 h
  exact ⟨⟨token, entry_eq_some.2 ⟨row, hrow, hget⟩, hanchor, rfl⟩, colSpan_run hrow, rowSpan_run⟩

theorem mem_anchorCells_iff {rows : List (List OtslToken)} {r c : Nat} :
    (∃ cell ∈ anchorCells rows, cell.startRow = r ∧ cell.startCol = c) ↔
      TagAt rows isAnchor r c := by
  constructor
  · rintro ⟨cell, hmem, rfl, rfl⟩
    obtain ⟨token, hat, hanchor, -⟩ := (anchorOf_mem hmem).token
    exact ⟨token, hat, hanchor⟩
  · rintro ⟨token, hat, hanchor⟩
    obtain ⟨row, hrow, hget⟩ := entry_eq_some.1 hat
    exact ⟨_, mem_anchorCells.2 ⟨r, c, row, token, hrow, hget, hanchor, rfl⟩, rfl, rfl⟩

/-- **Any body**: no table when no row is found, else the table of its rows
within the caps, every cut reported. -/
theorem parseOtslGrid_spec (byteSizeLong : TableCell → Nat) (body : Bytes) :
    match parseOtslGrid byteSizeLong body with
    | none => otslRows body = []
    | some (data, cut) => OtslTable byteSizeLong (otslRows body) data cut := by
  obtain ⟨hrows, hcols, hkeep⟩ := scanRows_spec body
  by_cases hempty : (scanRows body).rows = 0
  · have hnone : parseOtslGrid byteSizeLong body = none := by rw [parseOtslGrid, if_pos hempty]
    rw [hnone]
    exact List.length_eq_zero_iff.1 (hrows.symm.trans hempty)
  · have hcaps := keptRegion_caps (otslRows body)
    have hcells : ∀ cell ∈ anchorCells (keptRegion (otslRows body)),
        AnchorOf (keptRegion (otslRows body)) cell ∧
          cell.Inside (keptRegion (otslRows body)).length (widest (keptRegion (otslRows body))) :=
      fun cell hm => ⟨anchorOf_mem hm, anchorOf_inside (anchorOf_mem hm)⟩
    have hmajor := anchorCells_before (keptRegion (otslRows body))
    have hcut := keptRegion_cut_iff (otslRows body)
    rw [hrows] at hempty
    unfold parseOtslGrid
    simp only [hrows, hcols, hkeep, if_neg hempty]
    refine ⟨hcaps, ⟨rfl, rfl⟩, ⟨rfl, rfl⟩, decide_eq_true_iff,
      decide_eq_true_iff.trans hcut, hmajor, fun r c => mem_anchorCells_iff, hcells, ?_, ?_, ?_⟩
    · intro hfits
      rw [Bool.not_eq_false'] at hfits
      simp only [widest] at hfits hcells ⊢
      rw [if_pos hfits]
      exact isGrid_fillGrid hmajor fun cell hm => (hcells cell hm).2
    · intro hfits
      rw [Bool.not_eq_true'] at hfits
      simp only [hfits, Bool.false_eq_true, if_false]
    · intro hsize
      rw [Bool.not_eq_false']
      have hfits := gridFits_iff hcaps.2.2 (Nat.zero_le _) (fun cell hm => (hcells cell hm).2) hsize
      rwa [Nat.zero_add] at hfits

end VlmConvert.L2

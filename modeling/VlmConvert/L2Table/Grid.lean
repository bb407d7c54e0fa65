import VlmConvert.L2Table.Table

/-!
# What a grid holds

The readers stamp their cells onto the grid in row-major order, and malformed
spans overlap. What is left at a position is the last cell that covers it;
a cell's own corner is never lost, since every cell stamped later starts
behind it.

Results:

* `isGrid_fillGrid`: a stamped grid is a full matrix, each position holds the
  last covering cell or an empty one, and each corner its own cell.
* `gridFits_iff`: the cost check in `size_t` arithmetic is the check of the
  true cost.
-/
namespace VlmConvert.L2

/-! ## Rows of any width -/

theorem foldl_max_le_iff {l : List Nat} {m : Nat} : ∀ {a : Nat},
    l.foldl max a ≤ m ↔ a ≤ m ∧ ∀ x ∈ l, x ≤ m := by
  induction l with
  | nil => intro a; simp
  | cons x l ih =>
    intro a
    rw [List.foldl_cons, ih, Nat.max_le, List.forall_mem_cons, and_assoc]

section Rows
variable {α : Type}

def widest (rows : List (List α)) : Nat := (rows.map List.length).foldl max 0

def entry (rows : List (List α)) (r c : Nat) : Option α := rows[r]?.bind fun row => row[c]?

theorem widest_le_iff {rows : List (List α)} {m : Nat} :
    widest rows ≤ m ↔ ∀ row ∈ rows, row.length ≤ m := by
  simp [widest, foldl_max_le_iff]

theorem widest_append (rows more : List (List α)) :
    widest (rows ++ more) = max (widest rows) (widest more) := by
  apply Nat.le_antisymm
  · rw [widest_le_iff]
    intro row hrow
    rcases List.mem_append.1 hrow with h | h
    · exact (widest_le_iff.1 (Nat.le_refl _) row h).trans (Nat.le_max_left _ _)
    · exact (widest_le_iff.1 (Nat.le_refl _) row h).trans (Nat.le_max_right _ _)
  · rw [Nat.max_le, widest_le_iff, widest_le_iff]
    exact ⟨fun row h => widest_le_iff.1 (Nat.le_refl _) row (List.mem_append_left _ h),
      fun row h => widest_le_iff.1 (Nat.le_refl _) row (List.mem_append_right _ h)⟩

theorem entry_eq_some {rows : List (List α)} {r c : Nat} {x : α} :
    entry rows r c = some x ↔ ∃ row, rows[r]? = some row ∧ row[c]? = some x :=
  Option.bind_eq_some_iff

end Rows

/-! ## The kept shape -/

theorem keptTableShape_le (rows cols : Nat) :
    (keptTableShape rows cols).1 ≤ rows ∧ (keptTableShape rows cols).2 ≤ cols := by
  simp only [keptTableShape]
  split <;> omega

/-- The kept shape is within the caps. -/
theorem keptTableShape_caps (rows cols : Nat) :
    (keptTableShape rows cols).1 ≤ kMaxTableRows ∧ (keptTableShape rows cols).2 ≤ kMaxTableCols ∧
      (keptTableShape rows cols).1 * (keptTableShape rows cols).2 ≤ kMaxTableCells := by
  refine ⟨?_, ?_, ?_⟩
  · simp only [keptTableShape]; split <;> omega
  · simp only [keptTableShape]; omega
  · simp only [keptTableShape]
    split
    · exact (Nat.le_div_iff_mul_le ‹_›).1 (Nat.min_le_right _ _)
    · have hzero : min cols kMaxTableCols = 0 := by omega
      rw [hzero, Nat.mul_zero]
      exact Nat.zero_le _

/-! ## Stamping -/

/-- Row-major order of the anchors. -/
def TableCell.Before (a b : TableCell) : Prop :=
  a.startRow < b.startRow ∨ a.startRow = b.startRow ∧ a.startCol < b.startCol

/-- The last of `cells` whose span covers a position. -/
def lastCovering (cells : List TableCell) (r c : Nat) : Option TableCell :=
  cells.reverse.find? fun cell => decide (cell.Covers r c)

/-- The grid of a table: a full matrix in which the cells stamped last are on
top, and no cell is missing from its own corner. -/
structure IsGrid (numRows numCols : Nat) (cells : List TableCell) (grid : List (List TableCell)) :
    Prop where
  rows : grid.length = numRows
  cols : ∀ row ∈ grid, row.length = numCols
  holds : ∀ r c, r < numRows → c < numCols →
    cellAt grid r c = some ((lastCovering cells r c).getD (emptyCell r c))
  own : ∀ cell ∈ cells, cellAt grid cell.startRow cell.startCol = some cell

theorem lastCovering_cons (cell : TableCell) (cells : List TableCell) (r c : Nat)
    (old : TableCell) :
    (lastCovering (cell :: cells) r c).getD old =
      (lastCovering cells r c).getD (if cell.Covers r c then cell else old) := by
  simp only [lastCovering, List.reverse_cons, List.find?_append]
  cases cells.reverse.find? fun cell => decide (cell.Covers r c) with
  | some last => rfl
  | none =>
    by_cases hcov : cell.Covers r c
    · simp [hcov]
    · simp [hcov]

theorem cellAt_stamps (cells : List TableCell) (r c : Nat) : ∀ grid : List (List TableCell),
    cellAt (cells.foldl stamp grid) r c =
      (cellAt grid r c).map fun old => (lastCovering cells r c).getD old := by
  induction cells with
  | nil => intro grid; simp [lastCovering]
  | cons cell cells ih =>
    intro grid
    rw [List.foldl_cons, ih, cellAt_stamp, Option.map_map]
    congr 1
    funext old
    exact (lastCovering_cons cell cells r c old).symm

/-- Stamping keeps the shape. -/
theorem stamps_shape {numCols : Nat} (cells : List TableCell) : ∀ {grid : List (List TableCell)},
    (∀ row ∈ grid, row.length = numCols) →
    (cells.foldl stamp grid).length = grid.length ∧
      ∀ row ∈ cells.foldl stamp grid, row.length = numCols := by
  induction cells with
  | nil => intro grid h; exact ⟨rfl, h⟩
  | cons cell cells ih =>
    intro grid h
    have hstamp : ∀ row ∈ stamp grid cell, row.length = numCols := by
      intro row hrow
      obtain ⟨r, hr, rfl⟩ := List.mem_mapIdx.1 hrow
      rw [List.length_mapIdx]
      exact h _ (List.getElem_mem hr)
    obtain ⟨hlen, hrows⟩ := ih hstamp
    rw [List.foldl_cons]
    exact ⟨hlen.trans (by simp [stamp]), hrows⟩

/-- A cell stamped later does not cover the corner of an earlier one. -/
theorem TableCell.Before.not_covers {a b : TableCell} (h : a.Before b) :
    ¬ b.Covers a.startRow a.startCol := by
  intro hcov
  obtain ⟨h1, -, h3, -⟩ := hcov
  rcases h with h | ⟨h, h'⟩ <;> omega

/-- Cells made row by row and column by column are in row-major order. -/
theorem before_rowMajor {cellOf : Nat → Nat → Option TableCell}
    (h : ∀ r c cell, cellOf r c = some cell → cell.startRow = r ∧ cell.startCol = c) (numRows : Nat)
    (numCols : Nat → Nat) : ((List.range numRows).flatMap fun r =>
      (List.range (numCols r)).filterMap (cellOf r)).Pairwise TableCell.Before := by
  rw [List.pairwise_flatMap]
  constructor
  · intro r _
    rw [List.pairwise_filterMap]
    refine List.pairwise_lt_range.imp fun {c c'} hlt x hx y hy => .inr ?_
    obtain ⟨hx1, hx2⟩ := h r c x hx
    obtain ⟨hy1, hy2⟩ := h r c' y hy
    exact ⟨by omega, by omega⟩
  · refine List.pairwise_lt_range.imp fun {r r'} hlt x hx y hy => .inl ?_
    obtain ⟨c, -, hx⟩ := List.mem_filterMap.1 hx
    obtain ⟨c', -, hy⟩ := List.mem_filterMap.1 hy
    rw [(h r c x hx).1, (h r' c' y hy).1]
    exact hlt

/-- In row-major order no two cells start at one position. -/
theorem eq_of_start {cells : List TableCell} {a b : TableCell}
    (hmajor : cells.Pairwise TableCell.Before) (ha : a ∈ cells) (hb : b ∈ cells)
    (hrow : a.startRow = b.startRow) (hcol : a.startCol = b.startCol) : a = b := by
  have hnodup : (cells.map fun cell => (cell.startRow, cell.startCol)).Nodup := by
    rw [List.Nodup, List.pairwise_map]
    refine hmajor.imp fun {a b} h he => ?_
    obtain ⟨h1, h2⟩ := Prod.mk.inj he
    rcases h with h | ⟨-, h⟩ <;> omega
  exact List.inj_on_of_nodup_map hnodup ha hb (Prod.ext hrow hcol)

/-- In row-major order a cell is the last one on its own corner. -/
theorem lastCovering_own {cells : List TableCell} {cell : TableCell}
    (hmajor : cells.Pairwise TableCell.Before) (hmem : cell ∈ cells)
    (hcov : cell.Covers cell.startRow cell.startCol) :
    lastCovering cells cell.startRow cell.startCol = some cell := by
  obtain ⟨earlier, later, rfl⟩ := List.append_of_mem hmem
  have hlater : ∀ other ∈ later, cell.Before other :=
    (List.pairwise_cons.1 (List.pairwise_append.1 hmajor).2.1).1
  have hnone : later.reverse.find?
      (fun other => decide (other.Covers cell.startRow cell.startCol)) = none := by
    rw [List.find?_eq_none]
    intro other hother
    rw [decide_eq_true_eq]
    exact (hlater other (List.mem_reverse.1 hother)).not_covers
  simp only [lastCovering, List.reverse_append, List.reverse_cons, List.find?_append, hnone,
    List.append_assoc]
  simp [hcov]

/-- A cell on the grid: its corner is inside, and it covers it. -/
def TableCell.Inside (numRows numCols : Nat) (cell : TableCell) : Prop :=
  cell.startRow < cell.endRow ∧ cell.endRow ≤ numRows ∧ cell.startCol < cell.endCol ∧
    cell.endCol ≤ numCols

instance (numRows numCols : Nat) (cell : TableCell) : Decidable (cell.Inside numRows numCols) :=
  inferInstanceAs (Decidable (_ ∧ _ ∧ _ ∧ _))

/-- **The stamped grid**, for cells in row-major order, overlapping or not. -/
theorem isGrid_fillGrid {numRows numCols : Nat} {cells : List TableCell}
    (hmajor : cells.Pairwise TableCell.Before) (hin : ∀ cell ∈ cells, cell.Inside numRows numCols) :
    IsGrid numRows numCols cells (fillGrid numRows numCols cells) := by
  have hcols : ∀ row ∈ emptyGrid numRows numCols, row.length = numCols := by
    intro row hrow
    obtain ⟨r, -, rfl⟩ := List.mem_map.1 hrow
    simp
  obtain ⟨hlen, hrows⟩ := stamps_shape cells hcols
  have hholds : ∀ r c, r < numRows → c < numCols → cellAt (fillGrid numRows numCols cells) r c =
      some ((lastCovering cells r c).getD (emptyCell r c)) := by
    intro r c hr hc
    rw [fillGrid, cellAt_stamps, cellAt_emptyGrid hr hc, Option.map_some]
  refine ⟨hlen.trans (by simp [emptyGrid]), hrows, hholds, ?_⟩
  intro cell hmem
  obtain ⟨h1, h2, h3, h4⟩ := hin cell hmem
  rw [hholds _ _ (by omega) (by omega),
    lastCovering_own hmajor hmem ⟨Nat.le_refl _, h1, Nat.le_refl _, h3⟩]
  rfl

/-! ## Its cost -/

/-- How many positions a cell covers. -/
def TableCell.area (cell : TableCell) : Nat :=
  (cell.endRow - cell.startRow) * (cell.endCol - cell.startCol)

/-- What the copies of the cells cost. -/
def gridCost (byteSizeLong : TableCell → Nat) (cells : List TableCell) : Nat :=
  (cells.map fun cell => cell.area * byteSizeLong cell).sum

/-- Far above the 2 GiB that protobuf allows a message. -/
def maxMessageBytes : Nat := 2 ^ 48

/-- The counter does not wrap before it passes the cap: one cell covers at
most `kMaxTableCells` positions. -/
theorem gridFits_iff {byteSizeLong : TableCell → Nat} {numRows numCols : Nat}
    {cells : List TableCell}
    (hcaps : numRows * numCols ≤ kMaxTableCells) : ∀ {gridBytes : Nat}, gridBytes ≤ kMaxGridBytes →
    (∀ cell ∈ cells, cell.Inside numRows numCols) →
    (∀ cell ∈ cells, byteSizeLong cell < maxMessageBytes) →
    (gridFits byteSizeLong numRows numCols gridBytes cells = true ↔
      gridBytes + gridCost byteSizeLong cells ≤ kMaxGridBytes) := by
  induction cells with
  | nil =>
    intro gridBytes hle _ _
    simpa [gridFits, gridCost] using hle
  | cons cell cells ih =>
    intro gridBytes hle hin hsize
    obtain ⟨-, h2, -, h4⟩ := hin cell List.mem_cons_self
    have hin' : ∀ other ∈ cells, other.Inside numRows numCols :=
      fun other hm => hin other (List.mem_cons_of_mem _ hm)
    have hsize' : ∀ other ∈ cells, byteSizeLong other < maxMessageBytes :=
      fun other hm => hsize other (List.mem_cons_of_mem _ hm)
    have harea : cell.area ≤ kMaxTableCells :=
      (Nat.mul_le_mul (by omega) (by omega)).trans hcaps
    have hcost : cell.area * byteSizeLong cell ≤ kMaxTableCells * maxMessageBytes :=
      Nat.mul_le_mul harea (hsize cell List.mem_cons_self).le
    have hbig : kMaxGridBytes + kMaxTableCells * maxMessageBytes < 2 ^ 64 := by decide
    have hwrap : (gridBytes + cell.area * byteSizeLong cell) % 2 ^ 64 =
        gridBytes + cell.area * byteSizeLong cell := Nat.mod_eq_of_lt (by omega)
    have hsum : gridCost byteSizeLong (cell :: cells) =
        cell.area * byteSizeLong cell + gridCost byteSizeLong cells := by simp [gridCost]
    have hcovered :
      (min cell.endRow numRows - cell.startRow) * (min cell.endCol numCols - cell.startCol) =
        cell.area := by rw [Nat.min_eq_left h2, Nat.min_eq_left h4, TableCell.area]
    simp only [gridFits, hcovered, hwrap]
    rw [hsum, ← Nat.add_assoc]
    split
    · simp only [Bool.false_eq_true, false_iff]
      omega
    · exact ih (by omega) hin' hsize'

end VlmConvert.L2

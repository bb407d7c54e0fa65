import VlmConvert.Core.Tiling

/-!
# Table data and its caps

What every table reader of the mappers produces: `TableData`, the caps on
its shape and on the cost of its grid, and the grid itself, a full matrix
with each cell copied onto every position its span covers.

Row and column numbers are `int32` in the source; every number stored here
is below the caps, so they are `Nat`. `ByteSizeLong` is generated code: the
grid's cost takes it as a parameter.
-/
namespace VlmConvert.L2

/-- mirrors proto/ai/pipestream/document/v1/document.proto (`TableCell`),
the fields the mappers set. -/
structure TableCell where
  text : Bytes
  columnHeader : Bool
  rowHeader : Bool
  rowSection : Bool
  rowSpan : Nat
  colSpan : Nat
  startRow : Nat
  endRow : Nat
  startCol : Nat
  endCol : Nat
  deriving DecidableEq, Repr

structure TableData where
  numRows : Nat
  numCols : Nat
  tableCells : List TableCell
  grid : List (List TableCell)
  deriving DecidableEq, Repr

/-- mirrors src/mapping/builder.h:169-177 -/
structure TableCut where
  sourceRows : Nat
  sourceCols : Nat
  truncated : Bool
  gridOmitted : Bool
  deriving DecidableEq, Repr

def kMaxTableRows : Nat := 2000
def kMaxTableCols : Nat := 250
def kMaxTableCells : Nat := 50000
def kMaxGridBytes : Nat := 32 * 1024 * 1024

/-- mirrors src/mapping/builder.h:179-187 -/
def keptTableShape (rows cols : Nat) : Nat × Nat :=
  let keptCols := min cols kMaxTableCols
  let keptRows := min rows kMaxTableRows
  (if keptCols > 0 then min keptRows (kMaxTableCells / keptCols) else keptRows, keptCols)

/-- A shape within the caps is kept whole. -/
theorem keptTableShape_eq {rows cols : Nat} (h1 : rows ≤ kMaxTableRows) (h2 : cols ≤ kMaxTableCols)
    (h3 : rows * cols ≤ kMaxTableCells) : keptTableShape rows cols = (rows, cols) := by
  have hc : min cols kMaxTableCols = cols := Nat.min_eq_left h2
  simp only [keptTableShape, hc]
  split
  · rename_i hpos
    have : rows ≤ kMaxTableCells / cols := (Nat.le_div_iff_mul_le hpos).2 h3
    rw [Nat.min_eq_left h1, Nat.min_eq_left this]
  · rw [Nat.min_eq_left h1]

/-- A shape some cap cuts. -/
def OverCaps (rows cols : Nat) : Prop :=
  kMaxTableRows < rows ∨ kMaxTableCols < cols ∨ kMaxTableCells < rows * cols

instance (rows cols : Nat) : Decidable (OverCaps rows cols) :=
  inferInstanceAs (Decidable (_ ∨ _ ∨ _))

theorem keptTableShape_cut (rows cols : Nat) :
    (keptTableShape rows cols).1 < rows ∨ (keptTableShape rows cols).2 < cols ↔
      OverCaps rows cols := by
  constructor
  · intro h
    by_contra hover
    simp only [OverCaps, not_or, Nat.not_lt] at hover
    rw [keptTableShape_eq hover.1 hover.2.1 hover.2.2] at h
    simp at h
  · intro h
    by_contra hkept
    simp only [not_or, Nat.not_lt, keptTableShape] at hkept
    obtain ⟨hrows, hcols⟩ := hkept
    have hcols' : cols ≤ kMaxTableCols := by omega
    rw [Nat.min_eq_left hcols'] at hrows
    rcases h with h | h | h
    · split at hrows <;> omega
    · omega
    · have hpos : cols > 0 := Nat.pos_of_ne_zero fun e => by simp [e] at h
      rw [if_pos hpos] at hrows
      have hdiv : rows ≤ kMaxTableCells / cols := by omega
      have := (Nat.le_div_iff_mul_le hpos).1 hdiv
      omega

/-! ## The grid -/

/-- Past `kMaxGridBytes` of cell copies the grid is left out; `size_t`
arithmetic. -/
def gridFits (byteSizeLong : TableCell → Nat) (numRows numCols : Nat) : Nat → List TableCell → Bool
  | _, [] => true
  | gridBytes, cell :: rest =>
    let rowsCovered := min cell.endRow numRows - cell.startRow
    let colsCovered := min cell.endCol numCols - cell.startCol
    let gridBytes' := (gridBytes + rowsCovered * colsCovered * byteSizeLong cell) % 2 ^ 64
    if gridBytes' > kMaxGridBytes then false
    else gridFits byteSizeLong numRows numCols gridBytes' rest

/-- An uncovered position: an empty 1×1 cell. -/
def emptyCell (r c : Nat) : TableCell := ⟨[], false, false, false, 1, 1, r, r + 1, c, c + 1⟩

def emptyGrid (numRows numCols : Nat) : List (List TableCell) :=
  (List.range numRows).map fun r => (List.range numCols).map fun c => emptyCell r c

def TableCell.Covers (cell : TableCell) (r c : Nat) : Prop :=
  cell.startRow ≤ r ∧ r < cell.endRow ∧ cell.startCol ≤ c ∧ c < cell.endCol

instance (cell : TableCell) (r c : Nat) : Decidable (cell.Covers r c) :=
  inferInstanceAs (Decidable (_ ∧ _ ∧ _ ∧ _))

/-- The two inner loops: `cell` onto every position of the grid it covers. -/
def stamp (grid : List (List TableCell)) (cell : TableCell) : List (List TableCell) :=
  grid.mapIdx fun r row => row.mapIdx fun c old => if cell.Covers r c then cell else old

def fillGrid (numRows numCols : Nat) (cells : List TableCell) : List (List TableCell) :=
  cells.foldl stamp (emptyGrid numRows numCols)

def cellAt (grid : List (List TableCell)) (r c : Nat) : Option TableCell :=
  grid[r]?.bind fun row => row[c]?

theorem cellAt_stamp (grid : List (List TableCell)) (cell : TableCell) (r c : Nat) :
    cellAt (stamp grid cell) r c =
      (cellAt grid r c).map fun old => if cell.Covers r c then cell else old := by
  simp only [cellAt, stamp, List.getElem?_mapIdx]
  cases grid[r]? with
  | none => rfl
  | some row => simp [List.getElem?_mapIdx]

theorem cellAt_emptyGrid {numRows numCols r c : Nat} (hr : r < numRows) (hc : c < numCols) :
    cellAt (emptyGrid numRows numCols) r c = some (emptyCell r c) := by
  simp [cellAt, emptyGrid, hr, hc]

/-- Stamping leaves `x` at a position that only `x` is stamped on. -/
theorem cellAt_foldl_stamp {x : TableCell} {r c : Nat} {cells : List TableCell} :
    ∀ {grid : List (List TableCell)} {old : TableCell}, cellAt grid r c = some old →
      (∀ cell ∈ cells, cell.Covers r c → cell = x) →
      (old = x ∨ ∃ cell ∈ cells, cell.Covers r c) →
      cellAt (cells.foldl stamp grid) r c = some x := by
  induction cells with
  | nil =>
    intro grid old hold _ hex
    rcases hex with rfl | ⟨cell, hm, -⟩
    · exact hold
    · cases hm
  | cons cell cells ih =>
    intro grid old hold hall hex
    have hstamp : cellAt (stamp grid cell) r c = some (if cell.Covers r c then cell else old) := by
      rw [cellAt_stamp, hold, Option.map_some]
    have hall' : ∀ cell' ∈ cells, cell'.Covers r c → cell' = x :=
      fun cell' hm => hall cell' (List.mem_cons_of_mem _ hm)
    rw [List.foldl_cons]
    refine ih hstamp hall' ?_
    by_cases hcov : cell.Covers r c
    · rw [if_pos hcov]
      exact .inl (hall cell List.mem_cons_self hcov)
    · rw [if_neg hcov]
      rcases hex with rfl | ⟨cell', hm, hcov'⟩
      · exact .inl rfl
      · rcases List.mem_cons.1 hm with rfl | hm
        · exact absurd hcov' hcov
        · exact .inr ⟨cell', hm, hcov'⟩

/-- The grid at a position that exactly one cell covers. -/
theorem cellAt_fillGrid {numRows numCols r c : Nat} {cells : List TableCell} {x : TableCell}
    (hr : r < numRows) (hc : c < numCols) (hall : ∀ cell ∈ cells, cell.Covers r c → cell = x)
    (hx : x ∈ cells) (hcov : x.Covers r c) :
    cellAt (fillGrid numRows numCols cells) r c = some x :=
  cellAt_foldl_stamp (cellAt_emptyGrid hr hc) hall (.inr ⟨x, hx, hcov⟩)

end VlmConvert.L2

import VlmConvert.L2Table.HtmlLayout
import VlmConvert.L2Table.LatexHtml

/-!
# Where the two stages put a cell

The LaTeX stage counts an entry's columns and pushes a cell at the column it
stands at. The HTML stage sees the pushed cells and their final spans only,
and places each at the next free column. A row keeps its columns when what the
LaTeX stage skips is what the HTML stage finds taken: an empty entry must be
crossed in all its columns, by cells that no text of the same row ends, and a
cell must not start where one from above still goes through.

The LaTeX stage checks the first column of an entry only. It misses a cell
from above that reaches into the other columns of a wide entry, and the
columns of an empty entry that a later text of the row sets free.

Results:
* `layoutRow_spec`: a row ends some of the cells above it and pushes its own.
* `latex_positions_iff`: the stages agree on every position exactly when every
  row is aligned.
-/
namespace VlmConvert.L2.Latex

open Bytes L1 Placement

/-! ## Aligned rows -/

/-- The entries of a row, each with its first column. -/
def atColumns : Nat → List LatexCell → List (Nat × LatexCell)
  | _, [] => []
  | col, cell :: cells => (col, cell) :: atColumns (col + cell.colSpan) cells

/-- Some text of `entries` stands under cell `i` and ends it. -/
def endedBy (s : Layout) (r : Nat) (entries : List (Nat × LatexCell)) (i : Nat) : Bool :=
  entries.any fun e => !e.2.text.isEmpty && s.owner r e.1 == some i

/-- An empty entry under a cell that the entries left of it do not end. -/
def skipped (s : Layout) (r : Nat) (left : List (Nat × LatexCell)) (e : Nat × LatexCell) : Bool :=
  e.2.text.isEmpty && (s.owner r e.1).any fun i => !endedBy s r left i

/-- A cell from above goes through the row at a column: it covers it, and no
text of the row ends it. -/
def crossed (s : Layout) (r : Nat) (row : List (Nat × LatexCell)) (c : Nat) : Bool :=
  (List.range s.cells.length).any fun i =>
    decide ((s.cell i).col ≤ c ∧ c < (s.cell i).col + (s.cell i).colSpan ∧
      r < (s.cell i).row + (s.cell i).rowSpan) &&
      !endedBy s r row i

/-- Some entry becomes a cell. -/
def pushes (s : Layout) (r : Nat) : List (Nat × LatexCell) → List (Nat × LatexCell) → Bool
  | _, [] => false
  | left, e :: entries => !skipped s r left e || pushes s r (left ++ [e]) entries

/-- A cell starts where nothing goes through the row; what is skipped left of a
cell is crossed in all its columns. -/
def alignedFrom (s : Layout) (r : Nat) (row : List (Nat × LatexCell)) :
    List (Nat × LatexCell) → List (Nat × LatexCell) → Bool
  | _, [] => true
  | left, e :: entries =>
    (if skipped s r left e then
      !pushes s r (left ++ [e]) entries || (List.range' e.1 e.2.colSpan).all (crossed s r row)
    else !crossed s r row e.1) && alignedFrom s r row (left ++ [e]) entries

/-- A row is aligned under the layout before it. -/
def rowAligned (s : Layout) (r : Nat) (entries : List LatexCell) : Bool :=
  alignedFrom s r (atColumns 0 entries) [] (atColumns 0 entries)

/-- Every row is aligned when its turn comes. -/
def alignedRows : Nat → List (List LatexCell) → Layout → Bool
  | _, [], _ => true
  | r, entries :: rows, s =>
    rowAligned s r entries &&
      match layoutRow r entries s 0 with
      | none => true
      | some s => alignedRows (r + 1) rows s

/-! ## What a row does -/

/-- The cells of a row. -/
def rowCells (s : Layout) (r : Nat) :
    List (Nat × LatexCell) → List (Nat × LatexCell) → List PushedCell
  | _, [] => []
  | left, e :: entries =>
    if skipped s r left e then rowCells s r (left ++ [e]) entries
    else { e.2 with row := r, col := e.1 } :: rowCells s r (left ++ [e]) entries

/-- The cells above, where `left` ended some of them. -/
def endCells (s : Layout) (r : Nat) (left : List (Nat × LatexCell)) : List PushedCell :=
  s.cells.mapIdx fun i cell =>
    if endedBy s r left i then { cell with rowSpan := r - cell.row } else cell

theorem getElem?_endCells (s : Layout) (r : Nat) (left : List (Nat × LatexCell)) (i : Nat) :
    (endCells s r left)[i]? = (s.cells[i]?).map fun cell =>
      if endedBy s r left i then { cell with rowSpan := r - cell.row } else cell := by
  rw [endCells, List.getElem?_mapIdx]

theorem length_endCells (s : Layout) (r : Nat) (left : List (Nat × LatexCell)) :
    (endCells s r left).length = s.cells.length := by
  rw [endCells, List.length_mapIdx]

theorem cell_eq {s : Layout} {i : Nat} {cell : PushedCell} (h : s.cells[i]? = some cell) :
    s.cell i = cell := by
  rw [Layout.cell, List.getD_eq_getElem?_getD, h]
  rfl

/-- Inside a row, behind `left`: some cells above are ended, `new` cells are
pushed, and the columns ahead still belong to the cells above. -/
structure Midrow (s : Layout) (r : Nat) (left : List (Nat × LatexCell)) (new : List PushedCell)
    (m : Layout)
    (col : Nat) : Prop where
  cells : m.cells = endCells s r left ++ new
  owners : ∀ c, col ≤ c → m.owners.lookup c = s.owners.lookup c

section Row
variable {s : Layout} {r : Nat}

theorem LayoutInv.above (h : LayoutInv s r 0) : ∀ cell ∈ s.cells, cell.row < r := by
  intro cell hcell
  have := (h.spans cell hcell).1.colSpan_pos
  rcases h.rows cell hcell with hr | hr
  · exact hr
  · omega

/-- The owner ahead is the one before the row, if it is not ended. -/
theorem Midrow.owner (h : LayoutInv s r 0) {left : List (Nat × LatexCell)} {new : List PushedCell}
    {m : Layout}
    {col : Nat} (hm : Midrow s r left new m col) {c : Nat} (hc : col ≤ c) :
    m.owner r c = (s.owner r c).filter fun i => !endedBy s r left i := by
  unfold Layout.owner
  rw [hm.owners c hc]
  cases hlookup : s.owners.lookup c with
  | none => rfl
  | some i =>
    obtain ⟨cell, hcell, -⟩ := h.owned c i hlookup
    have hlt := (List.getElem?_eq_some_iff.1 hcell).1
    have hrow := h.above cell (List.mem_of_getElem? hcell)
    have hmid : m.cells[i]? =
      some (if endedBy s r left i then { cell with rowSpan := r - cell.row } else cell) := by
      rw [hm.cells, List.getElem?_append_left (by rw [length_endCells]; exact hlt),
        getElem?_endCells, hcell]
      rfl
    simp only [Option.filter_some, cell_eq hcell, cell_eq hmid]
    cases hended : endedBy s r left i with
    | true =>
      have hends : ¬ cell.row + (r - cell.row) > r := by omega
      by_cases hreach : cell.row + cell.rowSpan > r <;>
        simp [hends, hreach, hended, Option.filter_some]
    | false =>
      by_cases hreach : cell.row + cell.rowSpan > r <;> simp [hreach, hended, Option.filter_some]

theorem endedBy_snoc (s : Layout) (r : Nat) (left : List (Nat × LatexCell)) (e : Nat × LatexCell)
    (i : Nat) :
    endedBy s r (left ++ [e]) i =
      (endedBy s r left i || !e.2.text.isEmpty && s.owner r e.1 == some i) := by
  simp [endedBy]

theorem endCells_congr {left left' : List (Nat × LatexCell)}
    (h : ∀ i, endedBy s r left i = endedBy s r left' i) :
    endCells s r left = endCells s r left' := by
  unfold endCells
  simp only [h]

/-- A skipped entry changes nothing. -/
theorem Midrow.skip {left : List (Nat × LatexCell)} {new : List PushedCell} {m : Layout} {col : Nat}
    {cell : LatexCell} (hm : Midrow s r left new m col) (htext : cell.text = []) :
    Midrow s r (left ++ [(col, cell)]) new m (col + cell.colSpan) where
  cells := by
    have hsame : ∀ i, endedBy s r left i = endedBy s r (left ++ [(col, cell)]) i := by
      intro i
      simp [endedBy_snoc, htext]
    rw [hm.cells, endCells_congr hsame]
  owners := fun c hc => hm.owners c (by omega)

/-- A pushed cell owns its columns and no other. -/
theorem lookup_push (m : Layout) (r col c : Nat) (cell : LatexCell) :
    (m.push r col cell).owners.lookup c =
      if col ≤ c ∧ c < col + cell.colSpan then some m.cells.length else m.owners.lookup c := by
  show (((List.range' col cell.colSpan).map fun c => (c, m.cells.length)) ++ m.owners).lookup c = _
  have hrange : ∀ l : List Nat, (l.map fun c => (c, m.cells.length)).lookup c =
      if c ∈ l then some m.cells.length else none := by
    intro l
    induction l with
    | nil => rfl
    | cons d l ih =>
      rw [List.map_cons, List.lookup_cons, ih]
      by_cases hd : c = d
      · simp [hd]
      · have hne : (c == d) = false := by simpa using hd
        simp [hne, hd]
  rw [List.lookup_append, hrange]
  simp only [List.mem_range'_1]
  split <;> rfl

/-- A pushed entry, behind what it ends. -/
theorem Midrow.push {left : List (Nat × LatexCell)} {new : List PushedCell} {m m1 : Layout}
    {col : Nat}
    {cell : LatexCell} (hcells : m1.cells = endCells s r (left ++ [(col, cell)]) ++ new)
    (howners : m1.owners = m.owners) (hm : Midrow s r left new m col) :
    Midrow s r (left ++ [(col, cell)]) (new ++ [{ cell with row := r, col := col }])
      (m1.push r col cell) (col + cell.colSpan) where
  cells := by
    show m1.cells ++ [_] = _
    rw [hcells, List.append_assoc]
  owners := fun c hc => by
    rw [lookup_push, if_neg (by omega), howners]
    exact hm.owners c (by omega)

/-- A text under a cell ends it. -/
theorem endCells_shorten {left : List (Nat × LatexCell)} {e : Nat × LatexCell} {i : Nat}
    (h : LayoutInv s r 0)
    (howner : s.owner r e.1 = some i) (htext : e.2.text ≠ []) (hended : endedBy s r left i = false)
    (new : List PushedCell) :
    (endCells s r left ++ new).modify i (fun cell => { cell with rowSpan := r - cell.row }) =
      endCells s r (left ++ [e]) ++ new := by
  have hahead : LayoutInv s r e.1 := by simpa using h.skip e.1
  obtain ⟨cell, hcell, -⟩ := hahead.owner_row howner
  have hlt := (List.getElem?_eq_some_iff.1 hcell).1
  have hothers : ∀ j, endedBy s r (left ++ [e]) j = (endedBy s r left j || i == j) := by
    intro j
    rw [endedBy_snoc, howner, List.isEmpty_eq_false_iff.2 htext]
    simp
  refine List.ext_getElem? fun j => ?_
  rw [List.getElem?_modify, List.getElem?_append, List.getElem?_append, length_endCells,
    length_endCells, getElem?_endCells, getElem?_endCells, hothers]
  by_cases hj : i = j
  · subst hj
    rw [hcell]
    simp [hlt, hended]
  · simp [hj]

/-- **What a row does**: its texts end cells from above, and the entries that
are not skipped are pushed. -/
theorem layoutRow_spec (h : LayoutInv s r 0) :
    ∀ {entries : List LatexCell} {left : List (Nat × LatexCell)}
    {new : List PushedCell} {m s' : Layout} {col : Nat}, Midrow s r left new m col →
    layoutRow r entries m col = some s' →
    s'.cells = endCells s r (left ++ atColumns col entries) ++
      (new ++ rowCells s r left (atColumns col entries)) := by
  intro entries
  induction entries with
  | nil =>
    intro left new m s' col hm hrow
    cases hrow
    simpa [atColumns, rowCells] using hm.cells
  | cons cell entries ih =>
    intro left new m s' col hm hrow
    have howner := hm.owner h (Nat.le_refl col)
    have hsplit : left ++ atColumns col (cell :: entries) =
        (left ++ [(col, cell)]) ++ atColumns (col + cell.colSpan) entries := by
      simp [atColumns]
    rcases layoutRow_cases hrow with ⟨hsome, htext, hrow⟩ | ⟨m1, hm1, -, hrow⟩
    · have hskip : skipped s r left (col, cell) = true := by
        rw [howner] at hsome
        obtain ⟨i, hi⟩ := Option.isSome_iff_exists.1 hsome
        obtain ⟨hi, hended⟩ := Option.filter_eq_some_iff.1 hi
        simpa [skipped, htext, hi] using hended
      rw [hsplit, ih (hm.skip htext) hrow]
      simp [atColumns, rowCells, hskip]
    · obtain ⟨hskip, hcells, howners⟩ : skipped s r left (col, cell) = false ∧
          m1.cells = endCells s r (left ++ [(col, cell)]) ++ new ∧ m1.owners = m.owners := by
        rcases hm1 with ⟨hnone, rfl⟩ | ⟨i, hi, htext, rfl⟩
        · rw [howner] at hnone
          have hended : ∀ i, s.owner r col = some i → endedBy s r left i = true := by
            intro i hi
            rw [hi, Option.filter_some] at hnone
            by_contra hnot
            rw [Bool.not_eq_true] at hnot
            simp [hnot] at hnone
          have hsame : ∀ i, endedBy s r left i = endedBy s r (left ++ [(col, cell)]) i := by
            intro i
            rw [endedBy_snoc]
            cases hi : endedBy s r left i with
            | true => rfl
            | false =>
              have hne : s.owner r col ≠ some i := fun hs => by simp [hended i hs] at hi
              simp [hne]
          refine ⟨?_, by rw [hm.cells, endCells_congr hsame], rfl⟩
          cases hs : s.owner r col with
          | none => simp [skipped, hs]
          | some i => simp [skipped, hs, hended i hs]
        · rw [howner] at hi
          obtain ⟨hs, hended⟩ := Option.filter_eq_some_iff.1 hi
          refine ⟨by simp [skipped, htext], ?_, rfl⟩
          show m.cells.modify i _ = _
          rw [hm.cells]
          exact endCells_shorten h hs htext (by simpa using hended) new
      rw [hsplit, ih (Midrow.push hcells howners hm) hrow]
      simp [atColumns, rowCells, hskip]

end Row

theorem midrow_start (s : Layout) (r : Nat) : Midrow s r [] [] s 0 where
  cells := by
    rw [List.append_nil]
    refine List.ext_getElem? fun i => ?_
    rw [getElem?_endCells]
    cases s.cells[i]? <;> rfl
  owners := fun _ _ => rfl

/-- The whole row. -/
theorem layoutRow_cells {s s' : Layout} {r : Nat} (h : LayoutInv s r 0) {entries : List LatexCell}
    (hrow : layoutRow r entries s 0 = some s') :
    s'.cells = endCells s r (atColumns 0 entries) ++ rowCells s r [] (atColumns 0 entries) := by
  simpa using layoutRow_spec h (midrow_start s r) hrow

theorem row_rowCells {s : Layout} {r : Nat} : ∀ (entries left : List (Nat × LatexCell)),
    ∀ cell ∈ rowCells s r left entries, cell.row = r := by
  intro entries
  induction entries with
  | nil => intro left cell h; cases h
  | cons e entries ih =>
    intro left cell h
    rw [rowCells] at h
    split at h
    · exact ih _ cell h
    · rcases List.mem_cons.1 h with rfl | h
      · rfl
      · exact ih _ cell h

/-! ## Later rows -/

/-- A cell at the same place that goes through the same rows above `r`. -/
structure SameAbove (r : Nat) (a b : PushedCell) : Prop where
  place : b.place = a.place
  through : ∀ q, q < r → (q < b.row + b.rowSpan ↔ q < a.row + a.rowSpan)

theorem SameAbove.rfl' (r : Nat) (a : PushedCell) : SameAbove r a a := ⟨rfl, fun _ _ => Iff.rfl⟩

/-- Ending a cell at a row leaves it whole above. -/
theorem endCells_same {s : Layout} {r : Nat} (h : LayoutInv s r 0) (row : List (Nat × LatexCell)) :
    List.Forall₂ (SameAbove r) s.cells (endCells s r row) := by
  rw [List.forall₂_iff_get]
  refine ⟨(length_endCells s r row).symm, fun i h1 h2 => ?_⟩
  have hcell : s.cells[i]? = some (s.cells.get ⟨i, h1⟩) := List.getElem?_eq_getElem h1
  have hend : (endCells s r row)[i]? = some ((endCells s r row).get ⟨i, h2⟩) :=
    List.getElem?_eq_getElem h2
  rw [getElem?_endCells, hcell, Option.map_some, Option.some.injEq] at hend
  rw [← hend]
  split
  · rename_i hended
    obtain ⟨e, -, he⟩ := List.any_eq_true.1 hended
    have howner : s.owner r e.1 = some i := by
      rw [Bool.and_eq_true, beq_iff_eq] at he
      exact he.2
    have hahead : LayoutInv s r e.1 := by simpa using h.skip e.1
    obtain ⟨cell, hi, hrow, hreach⟩ := hahead.owner_row howner
    rw [hcell, Option.some.injEq] at hi
    rw [hi]
    refine ⟨rfl, fun q hq => ?_⟩
    show q < cell.row + (r - cell.row) ↔ _
    omega
  · exact .rfl' r _

theorem SameAbove.trans {r : Nat} {a b c : PushedCell} (h : SameAbove r a b)
    (h' : SameAbove r b c) :
    SameAbove r a c :=
  ⟨h'.place.trans h.place, fun q hq => (h'.through q hq).trans (h.through q hq)⟩

theorem SameAbove.mono {r r' : Nat} {a b : PushedCell} (h : SameAbove r' a b) (hr : r ≤ r') :
    SameAbove r a b :=
  ⟨h.place, fun q hq => h.through q (Nat.lt_of_lt_of_le hq hr)⟩

theorem forall₂_append_inv {R : PushedCell → PushedCell → Prop} {a b l : List PushedCell}
    (h : List.Forall₂ R (a ++ b) l) :
    ∃ a' b', l = a' ++ b' ∧ List.Forall₂ R a a' ∧ List.Forall₂ R b b' :=
  ⟨l.take a.length, l.drop a.length, (List.take_append_drop _ l).symm,
    (List.forall₂_take_append _ _ _ h.flip).flip, (List.forall₂_drop_append _ _ _ h.flip).flip⟩

theorem forall₂_same_trans {r : Nat} {a b c : List PushedCell}
    (h : List.Forall₂ (SameAbove r) a b) :
    List.Forall₂ (SameAbove r) b c → List.Forall₂ (SameAbove r) a c := by
  induction h generalizing c with
  | nil => exact id
  | cons hab _ ih =>
    intro h'
    cases h' with
    | cons hbc hrest => exact .cons (hab.trans hbc) (ih hrest)

theorem exists_of_forall₂ {R : PushedCell → PushedCell → Prop} {a b : List PushedCell}
    (h : List.Forall₂ R a b) :
    ∀ x ∈ a, ∃ y ∈ b, R x y := by
  induction h with
  | nil => intro x hx; cases hx
  | cons hxy _ ih =>
    intro x hx
    rcases List.mem_cons.1 hx with rfl | hx
    · exact ⟨_, List.mem_cons_self, hxy⟩
    · obtain ⟨y, hy, hR⟩ := ih x hx
      exact ⟨y, List.mem_cons_of_mem _ hy, hR⟩

theorem SameAbove.row_eq {r : Nat} {a b : PushedCell} (h : SameAbove r a b) : b.row = a.row :=
  congrArg Prod.fst h.place

/-- The rows from `r` on leave the cells above as they are there, and push
cells of their own. -/
theorem layoutRows_same : ∀ {rows : List (List LatexCell)} {r : Nat} {s s' : Layout},
    (∀ entries ∈ rows, ∀ cell ∈ entries, cell.Bounded) → LayoutInv s r 0 →
      layoutRows r rows s = some s' →
    ∃ old new, s'.cells = old ++ new ∧ List.Forall₂ (SameAbove r) s.cells old ∧
      ∀ cell ∈ new, r ≤ cell.row := by
  intro rows
  induction rows with
  | nil =>
    intro r s s' _ _ hrows
    cases hrows
    exact ⟨s.cells, [], by simp, List.forall₂_same.2 fun a _ => .rfl' r a, by simp⟩
  | cons entries rows ih =>
    intro r s s' hall h hrows
    rw [layoutRows] at hrows
    split at hrows
    · cases hrows
    · rename_i s1 hrow
      obtain ⟨hentries, hrest⟩ := List.forall_mem_cons.1 hall
      obtain ⟨col', h1⟩ := layoutRow_inv hentries h hrow
      obtain ⟨old, new, hcells, hold, hnew⟩ := ih hrest h1.next hrows
      rw [layoutRow_cells h hrow] at hold
      obtain ⟨above, own, rfl, habove, hown⟩ := forall₂_append_inv hold
      refine ⟨above, own ++ new, by rw [hcells, List.append_assoc], ?_, ?_⟩
      · exact forall₂_same_trans (endCells_same h _)
          (habove.imp fun _ _ hs => hs.mono (Nat.le_succ r))
      · intro cell hcell
        rcases List.mem_append.1 hcell with hcell | hcell
        · obtain ⟨own', hown', hs⟩ := exists_of_forall₂ hown.flip cell hcell
          rw [hs.row_eq, row_rowCells _ _ own' hown']
        · exact Nat.le_of_succ_le (hnew cell hcell)

/-! ## Aligned rows fit -/

/-- The columns that cells above row `r` take in it. -/
def Taken (cells : List PushedCell) (r c : Nat) : Prop :=
  ∃ cell ∈ cells, cell.row < r ∧ cell.col ≤ c ∧ c < cell.col + cell.colSpan ∧
    r < cell.row + cell.rowSpan

def PushedCell.extent (cell : PushedCell) : Nat × Nat := (cell.col, cell.colSpan)

/-- The cells of a row fit what is taken exactly when the row is aligned. -/
theorem fits_rowCells {s : Layout} {r : Nat} {row : List (Nat × LatexCell)} :
    ∀ {entries : List LatexCell}
    {left : List (Nat × LatexCell)} {start col : Nat}, start ≤ col →
    (Fits (fun c => crossed s r row c = true) start
        ((rowCells s r left (atColumns col entries)).map PushedCell.extent) ↔
      (pushes s r left (atColumns col entries) = true →
        ∀ d, start ≤ d → d < col → crossed s r row d = true) ∧
        alignedFrom s r row left (atColumns col entries) = true) := by
  intro entries
  induction entries with
  | nil =>
    intro left start col _
    exact ⟨fun _ => ⟨fun h => absurd h (by simp [atColumns, pushes]), rfl⟩, fun _ => trivial⟩
  | cons cell entries ih =>
    intro left start col hle
    rw [atColumns, rowCells, pushes, alignedFrom]
    cases hskip : skipped s r left (col, cell) with
    | true =>
      have hrest := @ih (left ++ [(col, cell)]) start (col + cell.colSpan) (by omega)
      simp only [if_true, Bool.not_true, Bool.false_or, Bool.and_eq_true, Bool.or_eq_true,
        Bool.not_eq_true', List.all_eq_true, List.mem_range'_1]
      rw [hrest]
      -- the gap grows by the columns of the skipped entry
      cases pushes s r (left ++ [(col, cell)]) (atColumns (col + cell.colSpan) entries) with
      | false => simp
      | true =>
        constructor
        · rintro ⟨hgap, haligned⟩
          have hgap := hgap rfl
          exact ⟨fun _ d h1 h2 => hgap d h1 (by omega), .inr fun c hc => hgap c (by omega) hc.2,
            haligned⟩
        · rintro ⟨hgap, hcrossed | hcrossed, haligned⟩
          · cases hcrossed
          · refine ⟨fun _ d h1 h2 => ?_, haligned⟩
            by_cases hd : d < col
            · exact hgap rfl d h1 hd
            · exact hcrossed d ⟨by omega, h2⟩
    | false =>
      have hrest :=
        @ih (left ++ [(col, cell)]) (col + cell.colSpan) (col + cell.colSpan) (Nat.le_refl _)
      have hnone : ∀ d, col + cell.colSpan ≤ d → d < col + cell.colSpan →
        crossed s r row d = true := by
        intro d h1 h2
        omega
      simp only [Bool.false_eq_true, if_false, Bool.not_false, Bool.true_or, Bool.and_eq_true,
        Bool.not_eq_true', List.map_cons]
      show (¬ crossed s r row col = true ∧ (∀ d, start ≤ d → d < col → crossed s r row d = true) ∧
        Fits _ _ _) ↔ _
      rw [hrest, Bool.not_eq_true]
      constructor
      · rintro ⟨hfree, hgap, -, haligned⟩
        exact ⟨fun _ => hgap, hfree, haligned⟩
      · rintro ⟨hgap, hfree, haligned⟩
        exact ⟨hfree, hgap trivial, fun _ => hnone, haligned⟩

/-- What goes through a row is what the cells above leave of themselves. -/
theorem crossed_iff {s : Layout} {r c : Nat} (h : LayoutInv s r 0) (row : List (Nat × LatexCell)) :
    crossed s r row c = true ↔ Taken (endCells s r row) r c := by
  unfold crossed Taken
  rw [List.any_eq_true]
  constructor
  · rintro ⟨i, hi, hcross⟩
    rw [List.mem_range] at hi
    have hcell : s.cells[i]? = some (s.cell i) := by
      rw [Layout.cell, List.getD_eq_getElem?_getD, List.getElem?_eq_getElem hi]
      rfl
    rw [Bool.and_eq_true, decide_eq_true_eq, Bool.not_eq_true'] at hcross
    obtain ⟨⟨h1, h2, h3⟩, hended⟩ := hcross
    refine ⟨s.cell i, ?_, h.above _ (List.mem_of_getElem? hcell), h1, h2, h3⟩
    refine List.mem_of_getElem? (i := i) ?_
    rw [getElem?_endCells, hcell, hended]
    rfl
  · rintro ⟨cell, hcell, hrow, h1, h2, h3⟩
    obtain ⟨i, hi⟩ := List.mem_iff_getElem?.1 hcell
    rw [getElem?_endCells] at hi
    obtain ⟨old, hold, he⟩ := Option.map_eq_some_iff.1 hi
    refine ⟨i, List.mem_range.2 (List.getElem?_eq_some_iff.1 hold).1, ?_⟩
    rw [cell_eq hold]
    cases hended : endedBy s r row i with
    | true =>
      -- an ended cell stops right above the row
      rw [hended, if_pos rfl] at he
      subst he
      have : r < old.row + (r - old.row) := h3
      have : old.row < r := hrow
      omega
    | false =>
      rw [hended] at he
      rw [← show old = cell from he] at h1 h2 h3
      simp [h1, h2, h3]

/-- A row and what follows it: the cells above, its own and those below. -/
theorem layoutRows_split {s s1 s' : Layout} {r : Nat} {entries : List LatexCell}
    {rows : List (List LatexCell)}
    (hall : ∀ e ∈ entries :: rows, ∀ cell ∈ e, cell.Bounded) (h : LayoutInv s r 0)
    (hrow : layoutRow r entries s 0 = some s1) (hrows : layoutRows (r + 1) rows s1 = some s') :
    ∃ above own below, s'.cells = above ++ own ++ below ∧
      List.Forall₂ (SameAbove (r + 1)) (endCells s r (atColumns 0 entries)) above ∧
      List.Forall₂ (SameAbove (r + 1)) (rowCells s r [] (atColumns 0 entries)) own ∧
      ∀ cell ∈ below, r < cell.row := by
  obtain ⟨hentries, hrest⟩ := List.forall_mem_cons.1 hall
  obtain ⟨col', h1⟩ := layoutRow_inv hentries h hrow
  obtain ⟨old, new, hcells, hold, hnew⟩ := layoutRows_same hrest h1.next hrows
  rw [layoutRow_cells h hrow] at hold
  obtain ⟨above, own, rfl, habove, hown⟩ := forall₂_append_inv hold
  exact ⟨above, own, new, hcells, habove, hown, hnew⟩

theorem map_place_eq {r : Nat} {a b : List PushedCell} (h : List.Forall₂ (SameAbove r) a b) :
    b.map PushedCell.place = a.map PushedCell.place := by
  induction h with
  | nil => rfl
  | cons hab _ ih => rw [List.map_cons, List.map_cons, hab.place, ih]

/-- **A row of the final layout fits what is taken in it** exactly when it was
aligned. -/
theorem row_fits_iff {s s1 s' : Layout} {r : Nat} {entries : List LatexCell}
    {rows : List (List LatexCell)}
    (hall : ∀ e ∈ entries :: rows, ∀ cell ∈ e, cell.Bounded) (h : LayoutInv s r 0)
    (hrow : layoutRow r entries s 0 = some s1) (hrows : layoutRows (r + 1) rows s1 = some s') :
    Fits (Taken s'.cells r) 0 ((s'.cells.filter (·.row == r)).map PushedCell.extent) ↔
      rowAligned s r entries = true := by
  obtain ⟨above, own, below, hcells, habove, hown, hbelow⟩ := layoutRows_split hall h hrow hrows
  have hends : ∀ cell ∈ endCells s r (atColumns 0 entries), cell.row < r := by
    intro cell hcell
    obtain ⟨old, hold, hs⟩ := exists_of_forall₂ (endCells_same h _).flip cell hcell
    rw [hs.row_eq]
    exact h.above old hold
  have habove' : ∀ cell ∈ above, cell.row < r := by
    intro cell hcell
    obtain ⟨old, hold, hs⟩ := exists_of_forall₂ habove.flip cell hcell
    rw [hs.row_eq]
    exact hends old hold
  have hown' : ∀ cell ∈ own, cell.row = r := by
    intro cell hcell
    obtain ⟨old, hold, hs⟩ := exists_of_forall₂ hown.flip cell hcell
    rw [hs.row_eq, row_rowCells _ _ old hold]
  have hfilter : s'.cells.filter (·.row == r) = own := by
    rw [hcells, List.filter_append, List.filter_append, List.filter_eq_nil_iff.2,
      List.filter_eq_self.2, List.filter_eq_nil_iff.2]
    · simp
    · intro cell hcell
      have := hbelow cell hcell
      simp only [beq_iff_eq]
      omega
    · intro cell hcell
      simpa using hown' cell hcell
    · intro cell hcell
      have := habove' cell hcell
      simp only [beq_iff_eq]
      omega
  have hextent : own.map PushedCell.extent =
    (rowCells s r [] (atColumns 0 entries)).map PushedCell.extent := by
    have hplace := congrArg (List.map Prod.snd) (map_place_eq hown)
    rwa [List.map_map, List.map_map] at hplace
  have htaken : ∀ c, Taken s'.cells r c ↔ crossed s r (atColumns 0 entries) c = true := by
    intro c
    rw [crossed_iff h]
    constructor
    · rintro ⟨cell, hcell, hlt, h1, h2, h3⟩
      rw [hcells, List.append_assoc] at hcell
      rcases List.mem_append.1 hcell with hcell | hcell
      · obtain ⟨old, hold, hs⟩ := exists_of_forall₂ habove.flip cell hcell
        have hplace := hs.place
        have hthrough := (hs.through r (Nat.lt_succ_self r)).1 h3
        simp only [PushedCell.place, Prod.mk.injEq] at hplace
        exact ⟨old, hold, by omega, by omega, by omega, hthrough⟩
      · rcases List.mem_append.1 hcell with hcell | hcell
        · have := hown' cell hcell
          omega
        · have := hbelow cell hcell
          omega
    · rintro ⟨old, hold, hlt, h1, h2, h3⟩
      obtain ⟨cell, hcell, hs⟩ := exists_of_forall₂ habove old hold
      have hplace := hs.place
      have hthrough := (hs.through r (Nat.lt_succ_self r)).2 h3
      simp only [PushedCell.place, Prod.mk.injEq] at hplace
      refine ⟨cell, ?_, by omega, by omega, by omega, hthrough⟩
      rw [hcells, List.append_assoc]
      exact List.mem_append_left _ hcell
  have hcovered : Taken s'.cells r = fun c => crossed s r (atColumns 0 entries) c = true :=
    funext fun c => propext (htaken c)
  rw [hfilter, hextent, hcovered, fits_rowCells (Nat.le_refl 0)]
  constructor
  · exact fun haligned => haligned.2
  · exact fun haligned => ⟨fun _ d _ hd => absurd hd (Nat.not_lt_zero d), haligned⟩

/-- All rows. -/
theorem alignedRows_iff : ∀ {rows : List (List LatexCell)} {r : Nat} {s s' : Layout},
    (∀ e ∈ rows, ∀ cell ∈ e, cell.Bounded) → LayoutInv s r 0 → layoutRows r rows s = some s' →
    (alignedRows r rows s = true ↔ ∀ i, i < rows.length →
      Fits (Taken s'.cells (r + i)) 0
        ((s'.cells.filter (·.row == r + i)).map PushedCell.extent)) := by
  intro rows
  induction rows with
  | nil => intro r s s' _ _ _; simp [alignedRows]
  | cons entries rows ih =>
    intro r s s' hall h hrows
    rw [layoutRows] at hrows
    split at hrows
    · cases hrows
    · rename_i s1 hrow
      obtain ⟨hentries, hrest⟩ := List.forall_mem_cons.1 hall
      obtain ⟨col', h1⟩ := layoutRow_inv hentries h hrow
      have hfirst := row_fits_iff hall h hrow hrows
      have hlater := ih hrest h1.next hrows
      rw [alignedRows, hrow, Bool.and_eq_true, hlater, ← hfirst]
      constructor
      · rintro ⟨hfits, hfitsRest⟩ i hi
        cases i with
        | zero => exact hfits
        | succ i =>
          have := hfitsRest i (by simpa using hi)
          rwa [show r + 1 + i = r + (i + 1) by omega] at this
      · intro hfits
        refine ⟨hfits 0 (by simp), fun i hi => ?_⟩
        have := hfits (i + 1) (by simpa using hi)
        rwa [show r + (i + 1) = r + 1 + i by omega] at this

/-! ## The HTML stage -/

section Html
variable {body : PushedCell → List MarkupNode}

/-- A pushed cell where the LaTeX stage put it. Its rows end with the table. -/
def placedCell (numRows : Nat) (body : PushedCell → List MarkupNode) (cell : PushedCell) :
    Placed HtmlElement where
  row := cell.row
  col := cell.col
  box := ⟨min (numRows - cell.row) cell.rowSpan, cell.colSpan, ⟨cellNode body cell, false⟩⟩

theorem attr_rowspan (cell : PushedCell) (fallback : Bytes) :
    (cellNode body cell).attr (ascii "rowspan") fallback = decimal cell.rowSpan := by
  unfold cellNode cellAttrs MarkupNode.attr
  cases cell.header <;> rfl

theorem attr_colspan (cell : PushedCell) (fallback : Bytes) :
    (cellNode body cell).attr (ascii "colspan") fallback = decimal cell.colSpan := by
  unfold cellNode cellAttrs MarkupNode.attr
  cases cell.header <;> rfl

theorem chandraBox_cellNode {cell : PushedCell}
    (h : cell.Bounded ∧ cell.col + cell.colSpan ≤ kMaxLatexColumns)
    (remaining : Nat) : chandraBox remaining false (cellNode body cell) =
      ⟨min remaining cell.rowSpan, cell.colSpan, ⟨cellNode body cell, false⟩⟩ := by
  obtain ⟨⟨hrow, hrowMax, hcol⟩, hend⟩ := h
  unfold kMaxLatexColumns at hrowMax hend
  have hwidth : parseSpan (decimal cell.colSpan) kMaxTableCells = cell.colSpan :=
    parseSpan_decimal hcol (by rw [kMaxTableCells]; omega) (by omega)
  unfold chandraBox
  rw [attr_rowspan, attr_rowspan, attr_colspan, decimal_ne_zero hrow, hwidth,
    parseSpan_decimal_min hrow (by omega)]
  rfl

theorem isCell_cellNode (cell : PushedCell) : isCell (cellNode body cell) = true := by
  rcases cellTag_cases cell with h | h <;>
    simp [isCell, cellNode, MarkupNode.isText, MarkupNode.tag, h]

theorem filter_rowNode (row : List PushedCell) :
    (rowNode body row).children.filter isCell = row.map (cellNode body) := by
  show (row.map (cellNode body)).filter isCell = _
  rw [List.filter_eq_self]
  intro node hnode
  obtain ⟨cell, -, rfl⟩ := List.mem_map.1 hnode
  exact isCell_cellNode cell

/-- A cell of row `r` within the column cap. -/
def StandsIn (r : Nat) (cell : PushedCell) : Prop :=
  cell.row = r ∧ cell.Bounded ∧ cell.col + cell.colSpan ≤ kMaxLatexColumns

/-- The HTML stage reads each row's boxes. -/
theorem chandraBoxesFrom_rows (numRows : Nat) : ∀ {grid : List (List PushedCell)} {r : Nat},
    (∀ i row, grid[i]? = some row → ∀ cell ∈ row, StandsIn (r + i) cell) →
    chandraBoxesFrom numRows r (grid.map fun row => ⟨rowNode body row, false, 0⟩) =
      (grid.map fun row => row.map (placedCell numRows body)).map fun ps => ps.map Placed.box := by
  intro grid
  induction grid with
  | nil => intro r _; rfl
  | cons row grid ih =>
    intro r h
    have hrest := @ih (r + 1) fun i row' hi cell hcell => by
      obtain ⟨hrow, hspans⟩ := h (i + 1) row' hi cell hcell
      exact ⟨by omega, hspans⟩
    have hboxes : (row.map (cellNode body)).map (chandraBox (numRows - r) false) =
        (row.map (placedCell numRows body)).map Placed.box := by
      rw [List.map_map, List.map_map]
      refine List.map_congr_left fun cell hcell => ?_
      obtain ⟨hrow, hspans⟩ := h 0 row rfl cell hcell
      show chandraBox (numRows - r) false (cellNode body cell) = (placedCell numRows body cell).box
      rw [chandraBox_cellNode hspans, placedCell, hrow]
      rfl
    simp only [List.map_cons, chandraBoxesFrom, filter_rowNode, ne_eq, not_true_eq_false, if_false,
      hboxes, hrest]

theorem chandraBoxes_gridNode {grid : List (List PushedCell)}
    (h : ∀ i row, grid[i]? = some row → ∀ cell ∈ row, StandsIn i cell) :
    chandraBoxes (gridNode body grid) =
      (grid.map fun row => row.map (placedCell grid.length body)).map fun ps =>
        ps.map Placed.box := by
  have hrows := chandraRows_trs (grid.map fun row => row.map (cellNode body))
  rw [List.map_map, List.map_map] at hrows
  have hgrid : chandraRows (gridNode body grid) =
    grid.map fun row => ⟨rowNode body row, false, 0⟩ := hrows
  rw [chandraBoxes, hgrid, List.length_map, chandraBoxesFrom_rows]
  intro i row hi cell hcell
  obtain ⟨hrow, hspans⟩ := h i row hi cell hcell
  exact ⟨by omega, hspans⟩

end Html

/-! ## Agreement -/

theorem ordered_extents {r : Nat} :
    ∀ {cells : List PushedCell} {start : Nat}, (∀ cell ∈ cells, cell.row = r) →
    cells.Pairwise (fun a b => Before a.place b.place) → (∀ cell ∈ cells, start ≤ cell.col) →
    Ordered start (cells.map PushedCell.extent) := by
  intro cells
  induction cells with
  | nil => intro start _ _ _; trivial
  | cons cell cells ih =>
    intro start hrow hbefore hstart
    obtain ⟨hfirst, hrest⟩ := List.pairwise_cons.1 hbefore
    refine ⟨hstart cell List.mem_cons_self,
      ih (fun c hc => hrow c (List.mem_cons_of_mem cell hc)) hrest ?_⟩
    intro c hc
    have h1 := hrow cell List.mem_cons_self
    have h2 := hrow c (List.mem_cons_of_mem cell hc)
    rcases hfirst c hc with hlt | ⟨-, hle⟩
    · have : cell.row < c.row := hlt
      omega
    · exact hle

section Grid
variable {cells : List PushedCell} {n i : Nat}

theorem getElem?_grid {row : List PushedCell}
    (h : ((List.range n).map fun r => cells.filter (·.row == r))[i]? = some row) :
    i < n ∧ row = cells.filter (·.row == i) := by
  rw [List.getElem?_map] at h
  obtain ⟨k, hk, rfl⟩ := Option.map_eq_some_iff.1 h
  obtain ⟨hlt, hget⟩ := List.getElem?_eq_some_iff.1 hk
  rw [List.length_range] at hlt
  rw [List.getElem_range] at hget
  subst hget
  exact ⟨hlt, rfl⟩

/-- What the cells of the first rows cover in row `i` is what is taken there. -/
theorem mem_cover_iff (body : PushedCell → List MarkupNode) (hi : i < n) (c : Nat) :
    (i, c) ∈ cover ∅ ((((List.range n).map fun r => cells.filter (·.row == r)).map fun row =>
      row.map (placedCell n body)).take i).flatten ↔ Taken cells i c := by
  rw [← List.map_take, ← List.map_take, List.take_range, Nat.min_eq_left (Nat.le_of_lt hi),
    mem_cover]
  simp only [Finset.notMem_empty, false_or]
  constructor
  · rintro ⟨p, hp, hpos⟩
    obtain ⟨ps, hps, hp⟩ := List.mem_flatten.1 hp
    obtain ⟨row, hrow, rfl⟩ := List.mem_map.1 hps
    obtain ⟨r, hr, rfl⟩ := List.mem_map.1 hrow
    obtain ⟨cell, hcell, rfl⟩ := List.mem_map.1 hp
    obtain ⟨hmem, hcr⟩ := List.mem_filter.1 hcell
    rw [List.mem_range] at hr
    rw [beq_iff_eq] at hcr
    rw [mem_positions] at hpos
    obtain ⟨⟨-, hreach⟩, hcol⟩ := hpos
    have hspan : i < cell.row + min (n - cell.row) cell.rowSpan := hreach
    exact ⟨cell, hmem, by omega, hcol.1, hcol.2, by omega⟩
  · rintro ⟨cell, hmem, hrow, h1, h2, h3⟩
    refine ⟨placedCell n body cell, List.mem_flatten.2 ⟨_, List.mem_map_of_mem (List.mem_map_of_mem
      (List.mem_range.2 hrow)), List.mem_map_of_mem (List.mem_filter.2 ⟨hmem, by simp⟩)⟩, ?_⟩
    rw [mem_positions]
    show (cell.row ≤ i ∧ i < cell.row + min (n - cell.row) cell.rowSpan) ∧ cell.col ≤ c ∧
      c < cell.col + cell.colSpan
    omega

end Grid

section Layout
variable {s : Layout} {n : Nat} {grid : List (List PushedCell)}
    (body : PushedCell → List MarkupNode)
  (hinv : LayoutInv s n 0) (hgrid : grid = (List.range n).map fun r => s.cells.filter (·.row == r))
  (hflat : grid.flatten = s.cells)
include hinv hgrid

theorem stands_grid : ∀ i row, grid[i]? = some row → ∀ cell ∈ row, StandsIn i cell := by
  intro i row hi cell hcell
  rw [hgrid] at hi
  obtain ⟨-, rfl⟩ := getElem?_grid hi
  obtain ⟨hmem, hrow⟩ := List.mem_filter.1 hcell
  exact ⟨by simpa using hrow, hinv.spans cell hmem⟩

theorem chandraBoxes_layout : chandraBoxes (gridNode body grid) =
    (grid.map fun row => row.map (placedCell n body)).map fun ps => ps.map Placed.box := by
  have hlength : grid.length = n := by rw [hgrid, List.length_map, List.length_range]
  rw [chandraBoxes_gridNode (stands_grid hinv hgrid), hlength]

/-- The rows of a layout are in order and within the column cap. -/
theorem given_grid : ∀ i ps, (grid.map fun row => row.map (placedCell n body))[i]? = some ps →
    (∀ p ∈ ps, p.row = 0 + i ∧ pastGuard p.col p.box = false) ∧ Ordered 0 (ps.map extent) := by
  intro i ps hi
  rw [List.getElem?_map] at hi
  obtain ⟨row, hrow, rfl⟩ := Option.map_eq_some_iff.1 hi
  have hstands := stands_grid hinv hgrid i row hrow
  constructor
  · intro p hp
    obtain ⟨cell, hcell, rfl⟩ := List.mem_map.1 hp
    obtain ⟨hcr, -, hend⟩ := hstands cell hcell
    refine ⟨by rw [Nat.zero_add]; exact hcr, decide_eq_false ?_⟩
    show ¬ cell.col + cell.colSpan > kMaxTableCols * 4
    unfold kMaxLatexColumns at hend
    unfold kMaxTableCols
    omega
  · rw [List.map_map]
    refine ordered_extents (fun cell hcell => (hstands cell hcell).1) ?_ fun _ _ => Nat.zero_le _
    rw [hgrid] at hrow
    obtain ⟨-, rfl⟩ := getElem?_grid hrow
    exact (List.pairwise_map.1 hinv.ordered).filter _

include hflat

/-- **The HTML stage keeps the places of a layout** exactly when the cells of
each row fit what the rows above take of it. -/
theorem place_layout_iff : Placement.place pastGuard 0 (chandraBoxes (gridNode body grid)) ∅ =
    s.cells.map (placedCell n body) ↔
    ∀ i, i < n →
      Fits (Taken s.cells i) 0 ((s.cells.filter (·.row == i)).map PushedCell.extent) := by
  have hcells : s.cells.map (placedCell n body) =
    (grid.map fun row => row.map (placedCell n body)).flatten := by
    rw [← hflat, List.map_flatten]
  have hcover : ∀ i, i < n → (fun c => (i, c) ∈ cover ∅
      ((grid.map fun row => row.map (placedCell n body)).take i).flatten) = Taken s.cells i := by
    intro i hi
    funext c
    rw [hgrid]
    exact propext (mem_cover_iff body hi c)
  rw [chandraBoxes_layout body hinv hgrid, hcells,
    place_eq_iff pastGuard (given_grid body hinv hgrid)]
  simp only [Nat.zero_add]
  constructor
  · intro hall i hi
    have hrow : grid[i]? = some (s.cells.filter (·.row == i)) := by
      rw [hgrid, List.getElem?_map, List.getElem?_range hi]
      rfl
    have := hall i _ (by rw [List.getElem?_map, hrow]; rfl)
    rw [hcover i hi, List.map_map] at this
    exact this
  · intro hall i ps hi
    rw [List.getElem?_map] at hi
    obtain ⟨row, hrow, rfl⟩ := Option.map_eq_some_iff.1 hi
    rw [hgrid] at hrow
    obtain ⟨hlt, rfl⟩ := getElem?_grid hrow
    rw [hcover i hlt, List.map_map]
    exact hall i hlt

/-- The places alone tell. -/
theorem corners_layout_iff :
    (chandraTableCells (gridNode body grid)).map (fun c => (c.row, c.col)) =
      s.cells.map (fun c => (c.row, c.col)) ↔
    Placement.place pastGuard 0 (chandraBoxes (gridNode body grid)) ∅ =
      s.cells.map (placedCell n body) := by
  have hcells : s.cells.map (placedCell n body) =
    (grid.map fun row => row.map (placedCell n body)).flatten := by
    rw [← hflat, List.map_flatten]
  have hpushed : s.cells.map (fun c => (c.row, c.col)) =
      (grid.map fun row => row.map (placedCell n body)).flatten.map corner := by
    rw [← hcells, List.map_map]
    rfl
  rw [chandraTableCells_place, List.map_map, hpushed, hcells, chandraBoxes_layout body hinv hgrid]
  exact place_corners_iff pastGuard

end Layout

/-- The HTML stage finds as many cells as were pushed, each at the row and the
column it was pushed at. -/
def PositionsAgree (latex html : Bytes) : Prop :=
  ∃ s table, layoutRows 0 (tabularRows latex) {} = some s ∧
    findElement (ascii "table") (parseMarkup .html html) = some table ∧
    (chandraTableCells table).map (fun c => (c.row, c.col)) = s.cells.map fun c => (c.row, c.col)

/-- **The two stages agree on every position exactly when every row is
aligned** under the layout before it. -/
theorem latex_positions_iff {latex html : Bytes} (h : latexTabularToHtml latex = some html) :
    PositionsAgree latex html ↔ alignedRows 0 (tabularRows latex) {} = true := by
  obtain ⟨grid, hgrid, rfl⟩ := Option.map_eq_some_iff.1 h
  obtain ⟨s, hs, hinv, hrows, hflat⟩ := latexGrid_inv hgrid
  obtain ⟨body, hbody⟩ := exists_body hgrid
  have hparse := parseMarkup_renderTable fun row hrow cell hcell => (hbody row hrow cell hcell).1
  have hfind : findElement (ascii "table") (parseMarkup .html (renderTable grid)) =
    some (gridNode body grid) := by
    rw [hparse]
    rfl
  have haligned := alignedRows_iff (bounded_tabularRows latex) layoutInv_empty hs
  simp only [Nat.zero_add] at haligned
  rw [haligned, ← place_layout_iff body hinv hrows hflat,
    ← corners_layout_iff body hinv hrows hflat]
  constructor
  · rintro ⟨s', table, hs', htable, heq⟩
    rw [hs] at hs'
    rw [hfind] at htable
    cases hs'
    cases htable
    exact heq
  · exact fun heq => ⟨s, gridNode body grid, hs, hfind, heq⟩

/-- A cell two rows high, and an empty entry under it. -/
def coveredLatex : Bytes := ascii "\\multirow\x7b2\x7d\x7b*\x7d\x7ba\x7d & b \\\\ & c"

def coveredLatexHtml : Bytes :=
  ascii "<table><tr><td rowspan=\"2\" colspan=\"1\">a</td><td rowspan=\"1\" colspan=\"1\">b</td></tr>" ++
    ascii "<tr><td rowspan=\"1\" colspan=\"1\">c</td></tr></table>"

theorem latex_positions_covered : latexTabularToHtml coveredLatex = some coveredLatexHtml ∧
    (PositionsAgree coveredLatex coveredLatexHtml ↔
      alignedRows 0 (tabularRows coveredLatex) {} = true) := by
  have h : latexTabularToHtml coveredLatex = some coveredLatexHtml := by decide
  exact ⟨h, latex_positions_iff h⟩

/-- A wide cell across the second column of a cell from above. It takes the
column over, and the cell above keeps its three rows. -/
def overlapLatex : Bytes :=
  ascii "a & \\multirow\x7b3\x7d\x7b*\x7d\x7bb\x7d \\\\ \\multicolumn\x7b2\x7d\x7bc\x7d\x7bx\x7d \\\\ y & z"

def overlapLatexHtml : Bytes :=
  ascii "<table><tr><td rowspan=\"1\" colspan=\"1\">a</td><td rowspan=\"3\" colspan=\"1\">b</td></tr>" ++
    ascii "<tr><td rowspan=\"1\" colspan=\"2\">x</td></tr>" ++
    ascii "<tr><td rowspan=\"1\" colspan=\"1\">y</td><td rowspan=\"1\" colspan=\"1\">z</td></tr></table>"

/-- The last cell is pushed at column 1 and placed at column 2. -/
theorem latex_positions_differ : ∃ html, latexTabularToHtml overlapLatex = some html ∧
    ¬ PositionsAgree overlapLatex html := by
  have hhtml : latexTabularToHtml overlapLatex = some overlapLatexHtml := by decide +kernel
  have hpushed : (layoutRows 0 (tabularRows overlapLatex) {}).map
    (fun s => s.cells.map fun c => (c.row, c.col)) =
      some [(0, 0), (0, 1), (1, 0), (2, 0), (2, 1)] := by decide
  have hplaced : (findElement (ascii "table") (parseMarkup .html overlapLatexHtml)).map
      (fun table => (chandraTableCells table).map fun c => (c.row, c.col)) =
        some [(0, 0), (0, 1), (1, 0), (2, 0), (2, 2)] := by decide +kernel
  refine ⟨overlapLatexHtml, hhtml, ?_⟩
  rintro ⟨s, table, hs, htable, heq⟩
  rw [hs, Option.map_some, Option.some.injEq] at hpushed
  rw [htable, Option.map_some, Option.some.injEq, heq, hpushed] at hplaced
  exact absurd hplaced (by decide)

end VlmConvert.L2.Latex

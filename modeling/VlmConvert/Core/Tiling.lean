import VlmConvert.Core.Bytes

/-!
# Tilings of a grid by rectangles

A grid of `rows` × `cols` positions partitioned into rectangles, each with a
value of any type. The partition is given by `cover`, the rectangle at each
position: it contains the position, lies in the grid, and is the rectangle
at every position it contains.

What readers of span tables need of it: `right_edge` and `bottom_edge`, that
the position just past a rectangle's edge is on the near edge of its own
rectangle. So a run of positions that are not on their rectangle's left
(top) edge never continues into a neighbour.

What readers that place rectangles one after the other need: `RowState`, how
the taken positions and the column cursor stand after the corners of row `i`
left of column `n`, with one lemma per kind of column. The cursor skips
exactly the positions taken from above and stops at the next corner.
-/
namespace VlmConvert

/-- `height` × `width` positions with top-left corner (`row`, `col`). -/
structure Rect (α : Type) where
  row : Nat
  col : Nat
  height : Nat
  width : Nat
  value : α
  deriving DecidableEq, Repr

namespace Rect

variable {α : Type}

def Contains (r : Rect α) (i j : Nat) : Prop :=
  r.row ≤ i ∧ i < r.row + r.height ∧ r.col ≤ j ∧ j < r.col + r.width

instance (r : Rect α) (i j : Nat) : Decidable (r.Contains i j) :=
  inferInstanceAs (Decidable (_ ∧ _ ∧ _ ∧ _))

/-- (`i`, `j`) is the top-left corner. -/
def IsCorner (r : Rect α) (i j : Nat) : Prop := r.row = i ∧ r.col = j

instance (r : Rect α) (i j : Nat) : Decidable (r.IsCorner i j) :=
  inferInstanceAs (Decidable (_ ∧ _))

end Rect

structure Tiling (α : Type) where
  rows : Nat
  cols : Nat
  cover : Nat → Nat → Rect α
  rows_pos : 1 ≤ rows
  cols_pos : 1 ≤ cols
  contains : ∀ {i j}, i < rows → j < cols → (cover i j).Contains i j
  same : ∀ {i j a b}, i < rows → j < cols → (cover i j).Contains a b → cover a b = cover i j
  inside : ∀ {i j}, i < rows → j < cols →
    (cover i j).row + (cover i j).height ≤ rows ∧ (cover i j).col + (cover i j).width ≤ cols

namespace Tiling

variable {α : Type} (t : Tiling α)

/-- The rectangles of row `i`: those with their corner in it, by column. -/
def rowRects (i : Nat) : List (Rect α) :=
  (List.range t.cols).filterMap fun j =>
    if (t.cover i j).IsCorner i j then some (t.cover i j) else none

/-- All rectangles, in row-major order of their corners. -/
def rects : List (Rect α) := (List.range t.rows).flatMap t.rowRects

variable {t} {i j : Nat}

theorem mem_rowRects {r : Rect α} :
    r ∈ t.rowRects i ↔ ∃ j, j < t.cols ∧ t.cover i j = r ∧ r.IsCorner i j := by
  simp only [rowRects, List.mem_filterMap, List.mem_range]
  constructor
  · rintro ⟨j, hj, h⟩
    split at h
    · rename_i hc
      cases h
      exact ⟨j, hj, rfl, hc⟩
    · cases h
  · rintro ⟨j, hj, rfl, hc⟩
    exact ⟨j, hj, by rw [if_pos hc]⟩

/-- A rectangle's corner is in the grid and covered by the rectangle. -/
theorem cover_corner (hi : i < t.rows) (hj : j < t.cols) :
    t.cover (t.cover i j).row (t.cover i j).col = t.cover i j := by
  obtain ⟨h1, h2, h3, h4⟩ := t.contains hi hj
  exact t.same hi hj ⟨Nat.le_refl _, by omega, Nat.le_refl _, by omega⟩

/-- The listed rectangles are exactly those that cover a position. -/
theorem mem_rects {r : Rect α} :
    r ∈ t.rects ↔ ∃ i j, i < t.rows ∧ j < t.cols ∧ t.cover i j = r := by
  simp only [rects, List.mem_flatMap, List.mem_range, mem_rowRects]
  constructor
  · rintro ⟨i, hi, j, hj, h, -⟩
    exact ⟨i, j, hi, hj, h⟩
  · rintro ⟨i, j, hi, hj, rfl⟩
    obtain ⟨h1, h2, h3, h4⟩ := t.contains hi hj
    exact ⟨(t.cover i j).row, by omega, (t.cover i j).col, by omega, cover_corner hi hj, rfl, rfl⟩

/-- Two rectangles with a position in common are one. -/
theorem eq_of_contains {r r' : Rect α} (h : r ∈ t.rects) (h' : r' ∈ t.rects) (hc : r.Contains i j)
    (hc' : r'.Contains i j) : r = r' := by
  obtain ⟨a, b, ha, hb, rfl⟩ := mem_rects.1 h
  obtain ⟨a', b', ha', hb', rfl⟩ := mem_rects.1 h'
  rw [← t.same ha hb hc, ← t.same ha' hb' hc']

/-- Right of a rectangle stands the left edge of the next one. -/
theorem right_edge {r : Rect α} (h : r ∈ t.rects) (h1 : r.row ≤ i) (h2 : i < r.row + r.height)
    (hj : r.col + r.width < t.cols) : (t.cover i (r.col + r.width)).col = r.col + r.width := by
  obtain ⟨a, b, ha, hb, rfl⟩ := mem_rects.1 h
  have hin := t.inside ha hb
  obtain ⟨-, -, hb1, hb2⟩ := t.contains ha hb
  have hi : i < t.rows := by omega
  generalize hr : t.cover a b = r at *
  obtain ⟨c1, c2, c3, c4⟩ := t.contains hi hj
  by_contra hne
  -- otherwise the neighbour reaches back into `r`
  have hback : (t.cover i (r.col + r.width)).Contains i (r.col + r.width - 1) :=
    ⟨c1, c2, by omega, by omega⟩
  have hmem : t.cover i (r.col + r.width) ∈ t.rects := mem_rects.2 ⟨_, _, hi, hj, rfl⟩
  have heq := eq_of_contains h hmem ⟨h1, h2, by omega, by omega⟩ hback
  rw [← heq] at c4
  omega

/-- Below a rectangle stands the top edge of the next one. -/
theorem bottom_edge {r : Rect α} (h : r ∈ t.rects) (h1 : r.col ≤ j) (h2 : j < r.col + r.width)
    (hi : r.row + r.height < t.rows) : (t.cover (r.row + r.height) j).row = r.row + r.height := by
  obtain ⟨a, b, ha, hb, rfl⟩ := mem_rects.1 h
  have hin := t.inside ha hb
  obtain ⟨ha1, ha2, -, -⟩ := t.contains ha hb
  have hj : j < t.cols := by omega
  generalize hr : t.cover a b = r at *
  obtain ⟨c1, c2, c3, c4⟩ := t.contains hi hj
  by_contra hne
  have hback : (t.cover (r.row + r.height) j).Contains (r.row + r.height - 1) j :=
    ⟨by omega, by omega, c3, c4⟩
  have hmem : t.cover (r.row + r.height) j ∈ t.rects := mem_rects.2 ⟨_, _, hi, hj, rfl⟩
  have heq := eq_of_contains h hmem ⟨by omega, by omega, h1, h2⟩ hback
  rw [← heq] at c2
  omega

/-! ## Placing rectangles in reading order -/

/-- The rectangle's corner is above row `i`, or in it left of column `n`. -/
def Placed (i n : Nat) (r : Rect α) : Prop := r.row < i ∨ (r.row = i ∧ r.col < n)

/-- After the corners of row `i` left of column `n`: from row `i` on, the
taken positions are those of placed rectangles; the cursor `col` is right of
every rectangle that starts in this row, and passed no corner to come. -/
structure RowState (t : Tiling α) (i n : Nat) (taken : Nat → Nat → Prop) (col : Nat) : Prop where
  taken_iff : ∀ {r c}, i ≤ r → r < t.rows → c < t.cols → (taken r c ↔ Placed i n (t.cover r c))
  left : ∀ {c}, c < t.cols → (t.cover i c).row = i → (t.cover i c).col < n → c < col
  right : ∀ {c}, n ≤ c → c < col → ¬ (t.cover i c).IsCorner i c
  col_le : col ≤ t.cols

variable {n col : Nat} {taken taken' : Nat → Nat → Prop}

theorem RowState.start
    (h : ∀ {r c}, i ≤ r → r < t.rows → c < t.cols → (taken r c ↔ (t.cover r c).row < i)) :
    t.RowState i 0 taken 0 where
  taken_iff := by
    intro r c h1 h2 h3
    rw [h h1 h2 h3]
    exact ⟨.inl, fun h => h.elim id fun h => absurd h.2 (Nat.not_lt_zero _)⟩
  left := fun _ _ h => absurd h (Nat.not_lt_zero _)
  right := fun _ h => absurd h (Nat.not_lt_zero _)
  col_le := Nat.zero_le _

/-- No rectangle starts at (`i`, `n`): none is placed there. -/
theorem placed_pass (hc : ¬ (t.cover i n).IsCorner i n) {r c : Nat} (h1 : r < t.rows)
    (h2 : c < t.cols) : Placed i n (t.cover r c) ↔ Placed i (n + 1) (t.cover r c) := by
  constructor
  · rintro (h | ⟨h, h'⟩)
    · exact .inl h
    · exact .inr ⟨h, by omega⟩
  · rintro (h | ⟨h, h'⟩)
    · exact .inl h
    · refine .inr ⟨h, ?_⟩
      by_contra hlt
      have hcol : (t.cover r c).col = n := by omega
      have hsame := cover_corner h1 h2
      rw [h, hcol] at hsame
      exact hc (by rw [hsame]; exact ⟨h, hcol⟩)

theorem RowState.pass (h : t.RowState i n taken col) (hi : i < t.rows)
    (hc : ¬ (t.cover i n).IsCorner i n) : t.RowState i (n + 1) taken col where
  taken_iff := fun h1 h2 h3 => (h.taken_iff h1 h2 h3).trans (placed_pass hc h2 h3)
  left := by
    intro c hcols hrow hcol
    rcases (placed_pass hc hi hcols).2 (.inr ⟨hrow, hcol⟩) with h' | h'
    · omega
    · exact h.left hcols hrow h'.2
  right := fun h1 h2 => h.right (by omega) h2
  col_le := h.col_le

/-- At a corner: the cursor has only positions taken from above to skip. -/
theorem RowState.at_corner (h : t.RowState i n taken col) (hi : i < t.rows) (hn : n < t.cols)
    (hc : (t.cover i n).IsCorner i n) :
    col ≤ n ∧ (∀ c, col ≤ c → c < n → taken i c) ∧ ¬ taken i n := by
  have hcol : col ≤ n := by
    by_contra hlt
    exact h.right (Nat.le_refl n) (by omega) hc
  refine ⟨hcol, fun c h1 h2 => ?_, fun ht => ?_⟩
  · obtain ⟨c1, -, c3, -⟩ := t.contains hi (show c < t.cols by omega)
    refine (h.taken_iff (Nat.le_refl i) hi (by omega)).2 (.inl ?_)
    by_contra hlt
    have := h.left (c := c) (by omega) (by omega) (by omega)
    omega
  · rcases (h.taken_iff (Nat.le_refl i) hi hn).1 ht with h' | h'
    · have := hc.1; omega
    · have := hc.2; omega

/-- Placing the corner's rectangle. -/
theorem RowState.place (h : t.RowState i n taken col) (hi : i < t.rows) (hn : n < t.cols)
    (hc : (t.cover i n).IsCorner i n)
    (ht : ∀ {r c}, i ≤ r → r < t.rows → c < t.cols → (taken' r c ↔ taken r c ∨
      (r < i + (t.cover i n).height ∧ n ≤ c ∧ c < n + (t.cover i n).width))) :
    t.RowState i (n + 1) taken' (n + (t.cover i n).width) := by
  have hin := t.inside hi hn
  obtain ⟨hrow, hcol⟩ := hc
  have hmem : t.cover i n ∈ t.rects := mem_rects.2 ⟨i, n, hi, hn, rfl⟩
  refine ⟨fun {r c} h1 h2 h3 => ?_, fun {c} h1 h2 h3 => ?_, fun {c} h1 h2 h3 => ?_, by omega⟩
  · rw [ht h1 h2 h3, h.taken_iff h1 h2 h3]
    constructor
    · rintro ((h' | h') | ⟨h4, h5, h6⟩)
      · exact .inl h'
      · exact .inr ⟨h'.1, by omega⟩
      · have hsame : t.cover r c = t.cover i n :=
          t.same hi hn ⟨by omega, by omega, by omega, by omega⟩
        exact .inr ⟨by rw [hsame]; exact hrow, by rw [hsame]; omega⟩
    · rintro (h' | ⟨h', h''⟩)
      · exact .inl (.inl h')
      · by_cases hlt : (t.cover r c).col < n
        · exact .inl (.inr ⟨h', hlt⟩)
        · have hc' : (t.cover r c).col = n := by omega
          have hsame := cover_corner h2 h3
          rw [h', hc'] at hsame
          obtain ⟨c1, c2, c3, c4⟩ := t.contains h2 h3
          rw [← hsame] at c1 c2 c3 c4
          exact .inr ⟨by omega, by omega, by omega⟩
  · by_cases hlt : (t.cover i c).col < n
    · have := h.left h1 h2 hlt
      have := (h.at_corner hi hn ⟨hrow, hcol⟩).1
      omega
    · have hc' : (t.cover i c).col = n := by omega
      have hsame := cover_corner hi h1
      rw [h2, hc'] at hsame
      obtain ⟨-, -, -, c4⟩ := t.contains hi h1
      rw [← hsame] at c4
      omega
  · have hsame : t.cover i c = t.cover i n :=
      t.same hi hn ⟨by omega, by have := (t.contains hi hn).2.1; omega, by omega, by omega⟩
    have := h3.2
    rw [hsame] at this
    omega

/-- The row is done: everything placed so far started in it or above. -/
theorem RowState.next (h : t.RowState i t.cols taken col) {r c : Nat} (h1 : i + 1 ≤ r)
    (h2 : r < t.rows) (h3 : c < t.cols) : taken r c ↔ (t.cover r c).row < i + 1 := by
  rw [h.taken_iff (by omega) h2 h3]
  obtain ⟨-, -, c3, -⟩ := t.contains h2 h3
  constructor
  · rintro (h' | h') <;> omega
  · intro h'
    by_cases hlt : (t.cover r c).row < i
    · exact .inl hlt
    · exact .inr ⟨by omega, by omega⟩

/-- The rectangles of row `i` with their corner at column `n` or right of it. -/
def rowFrom (t : Tiling α) (i n : Nat) : List (Rect α) :=
  (List.range' n (t.cols - n)).filterMap fun j =>
    if (t.cover i j).IsCorner i j then some (t.cover i j) else none

theorem rowFrom_zero : t.rowFrom i 0 = t.rowRects i := by
  simp [rowFrom, rowRects, List.range_eq_range']

theorem rowFrom_end (h : t.cols ≤ n) : t.rowFrom i n = [] := by
  simp [rowFrom, Nat.sub_eq_zero_of_le h]

theorem range'_sub (h : n < t.cols) :
    List.range' n (t.cols - n) = n :: List.range' (n + 1) (t.cols - (n + 1)) := by
  rw [show t.cols - n = t.cols - (n + 1) + 1 by omega, List.range'_succ]

theorem rowFrom_pass (h : n < t.cols) (hc : ¬ (t.cover i n).IsCorner i n) :
    t.rowFrom i n = t.rowFrom i (n + 1) := by
  simp [rowFrom, range'_sub h, hc]

theorem rowFrom_corner (h : n < t.cols) (hc : (t.cover i n).IsCorner i n) :
    t.rowFrom i n = t.cover i n :: t.rowFrom i (n + 1) := by
  simp [rowFrom, range'_sub h, hc]

/-- Reading a row from column `n` to its end: what holds behind the last
column, and carries over from column to column, holds at `n`. -/
theorem row_induction {motive : Nat → Prop} (hend : motive t.cols)
    (hstep : ∀ n, n < t.cols → motive (n + 1) → motive n) {n : Nat} (hn : n ≤ t.cols) : motive n :=
  Nat.decreasingInduction (fun k hk ih => hstep k hk ih) hend hn

/-- The widths of the rectangles still to come fit right of the cursor, and
in the first row, where nothing comes from above, they fill it. -/
theorem rowFrom_width (hi : i < t.rows) : ∀ {n}, n ≤ t.cols → ∀ taken col,
    t.RowState i n taken col → col + ((t.rowFrom i n).map Rect.width).sum ≤ t.cols ∧
      (i = 0 → col + ((t.rowFrom i n).map Rect.width).sum = t.cols) := by
  intro n hn
  apply row_induction (t := t) ?_ ?_ hn
  · intro taken col hst
    have hle := hst.col_le
    have hcols := t.cols_pos
    rw [rowFrom_end (Nat.le_refl _)]
    refine ⟨hle, fun h0 => ?_⟩
    obtain ⟨c1, -, c3, -⟩ := t.contains hi (show t.cols - 1 < t.cols by omega)
    have hlast := hst.left (c := t.cols - 1) (by omega) (by omega) (by omega)
    simp only [List.map_nil, List.sum_nil]
    omega
  · intro n hn ih taken col hst
    by_cases hc : (t.cover i n).IsCorner i n
    · obtain ⟨h1, h2, -⟩ := hst.at_corner hi hn hc
      have hplace : t.RowState i (n + 1) (fun r c => taken r c ∨
          (r < i + (t.cover i n).height ∧ n ≤ c ∧ c < n + (t.cover i n).width))
          (n + (t.cover i n).width) := hst.place hi hn hc fun _ _ _ => Iff.rfl
      obtain ⟨hle, heq⟩ := ih _ _ hplace
      rw [rowFrom_corner hn hc, List.map_cons, List.sum_cons]
      refine ⟨by omega, fun h0 => ?_⟩
      have hcol : col = n := by
        by_contra hne
        rcases (hst.taken_iff (Nat.le_refl i) hi (by omega)).1 (h2 col (Nat.le_refl _) (by omega))
          with h | h
        · omega
        · have := hst.left (c := col) (by omega) h.1 h.2
          omega
      have := heq h0
      omega
    · rw [rowFrom_pass hn hc]
      exact ih taken col (hst.pass hi hc)

/-- Nothing is taken yet from row `i` on but what reaches down into it. -/
theorem rowState_start (t : Tiling α) (i : Nat) :
    t.RowState i 0 (fun r c => (t.cover r c).row < i) 0 := RowState.start fun _ _ _ => Iff.rfl

theorem rowRects_width_le (hi : i < t.rows) : ((t.rowRects i).map Rect.width).sum ≤ t.cols := by
  have := (rowFrom_width hi (Nat.zero_le _) _ _ (t.rowState_start i)).1
  rw [rowFrom_zero] at this
  omega

theorem rowRects_zero_width : ((t.rowRects 0).map Rect.width).sum = t.cols := by
  have := (rowFrom_width t.rows_pos (Nat.zero_le _) _ _ (t.rowState_start 0)).2 rfl
  rw [rowFrom_zero] at this
  omega

/-- The furthest row and column ends of the rectangles are the grid's. -/
theorem rects_max : (∀ r ∈ t.rects, r.row + r.height ≤ t.rows ∧ r.col + r.width ≤ t.cols) ∧
    ∃ r ∈ t.rects, r.row + r.height = t.rows ∧ r.col + r.width = t.cols := by
  have hrows := t.rows_pos
  have hcols := t.cols_pos
  have h1 : t.rows - 1 < t.rows := by omega
  have h2 : t.cols - 1 < t.cols := by omega
  refine ⟨fun r hr => ?_, t.cover (t.rows - 1) (t.cols - 1), mem_rects.2 ⟨_, _, h1, h2, rfl⟩, ?_⟩
  · obtain ⟨i, j, hi, hj, rfl⟩ := mem_rects.1 hr
    exact t.inside hi hj
  · have hin := t.inside h1 h2
    obtain ⟨c1, c2, c3, c4⟩ := t.contains h1 h2
    omega

end Tiling

end VlmConvert

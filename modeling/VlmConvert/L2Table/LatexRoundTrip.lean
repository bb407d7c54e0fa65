import VlmConvert.L2Table.LatexPositions
import VlmConvert.L2Table.LatexRender

/-!
# The round trip of a LaTeX table

A rendered tiling is laid out as its rectangles: an empty entry stands under
the rectangle that covers it, which owns its column, and at a corner no cell
from above reaches the row. The HTML stage then finds every rectangle where it
was, since what lies left of a corner is taken by rectangles from above.

Results:
* `layoutRows_tiling`: the layout of a rendered tiling.
* `latex_round_trip`: LaTeX to HTML to cells gives the rectangles back.
-/
namespace VlmConvert.L2.Latex

open Bytes L1 Placement

/-! ## The layout -/

/-- A rectangle as a pushed cell. -/
def pushedRect (r : Rect PlainText) : PushedCell := { entryCell r with row := r.row, col := r.col }

/-- Before column `n` of row `i`: the rectangles left of it are pushed, and
each column belongs to the last rectangle that covers it so far. -/
structure Scanned (t : Tiling PlainText) (i n : Nat) (m : Layout) : Prop where
  cells : m.cells ++ (t.rowFrom i n).map pushedRect =
    ((List.range (i + 1)).flatMap t.rowRects).map pushedRect
  left : ∀ c, c < n →
    ∃ k, m.owners.lookup c = some k ∧ m.cells[k]? = some (pushedRect (t.cover i c))
  right : ∀ c, n ≤ c → c < t.cols → if i = 0 then m.owners.lookup c = none
    else ∃ k, m.owners.lookup c = some k ∧ m.cells[k]? = some (pushedRect (t.cover (i - 1) c))

section Scan
variable {t : Tiling PlainText} {i n : Nat} {m : Layout}

/-- The owner of a column ahead reaches the row exactly when its rectangle
does. -/
theorem Scanned.owner (h : Scanned t i n m) (hi : i < t.rows) (hn : n < t.cols) :
    (m.owner i n).isSome = decide ((t.cover i n).row < i) := by
  have hright := h.right n (Nat.le_refl n) hn
  obtain ⟨c1, c2, c3, c4⟩ := t.contains hi hn
  unfold Layout.owner
  split at hright
  · rename_i hzero
    rw [hright]
    symm
    simp only [Option.filter_none, Option.isSome_none, decide_eq_false_iff_not]
    omega
  · rename_i hpos
    obtain ⟨k, hk, hcell⟩ := hright
    rw [hk, Option.filter_some, cell_eq hcell]
    have hi' : i - 1 < t.rows := by omega
    obtain ⟨d1, d2, d3, d4⟩ := t.contains hi' hn
    have hreach : (t.cover (i - 1) n).row + (t.cover (i - 1) n).height > i ↔
      (t.cover i n).row < i := by
      constructor
      · intro hlt
        rw [t.same hi' hn ⟨by omega, hlt, d3, d4⟩]
        omega
      · intro hlt
        have hsame := t.same hi hn (a := i - 1) (b := n) ⟨by omega, by omega, c3, c4⟩
        rw [hsame]
        exact c2
    show (if decide ((t.cover (i - 1) n).row + (t.cover (i - 1) n).height > i) = true then some k
      else none).isSome = _
    by_cases hlt : (t.cover i n).row < i
    · simp [hreach.2 hlt, hlt]
    · simp [mt hreach.1 hlt, hlt]

/-- Past a position that a rectangle from above covers. -/
theorem Scanned.pass (h : Scanned t i n m) (hi : i < t.rows) (hn : n < t.cols)
    (habove : (t.cover i n).row < i) :
    Scanned t i (n + 1) m where
  cells := by
    have hcorner : ¬ (t.cover i n).IsCorner i n := fun hc => by have := hc.1; omega
    rw [← Tiling.rowFrom_pass hn hcorner]
    exact h.cells
  left := by
    intro c hc
    by_cases hlt : c < n
    · exact h.left c hlt
    · obtain ⟨c1, c2, c3, c4⟩ := t.contains hi hn
      have hright := h.right n (Nat.le_refl n) hn
      rw [if_neg (by omega)] at hright
      have hsame := t.same hi hn (a := i - 1) (b := n) ⟨by omega, by omega, c3, c4⟩
      rw [hsame] at hright
      rw [show c = n by omega]
      exact hright
  right := fun c hc => h.right c (by omega)

/-- No corner stands right of a corner in its rectangle. -/
theorem rowFrom_width_pass (hi : i < t.rows) (hn : n < t.cols)
    (hcorner : (t.cover i n).IsCorner i n) :
    ∀ k, k < (t.cover i n).width → t.rowFrom i (n + 1) = t.rowFrom i (n + 1 + k) := by
  intro k
  induction k with
  | zero => intro _; rfl
  | succ k ih =>
    intro hk
    obtain ⟨c1, c2, c3, c4⟩ := t.contains hi hn
    have hin := t.inside hi hn
    have hcol := hcorner.2
    have hsame := t.same hi hn (a := i) (b := n + 1 + k) ⟨c1, c2, by omega, by omega⟩
    have hpass : ¬ (t.cover i (n + 1 + k)).IsCorner i (n + 1 + k) := by
      intro hc
      have := hc.2
      rw [hsame] at this
      omega
    rw [ih (by omega), Tiling.rowFrom_pass (by omega) hpass]
    rfl

/-- At a corner. -/
theorem Scanned.push (h : Scanned t i n m) (hi : i < t.rows) (hn : n < t.cols)
    (hcorner : (t.cover i n).IsCorner i n) :
    Scanned t i (n + (t.cover i n).width) (m.push i n (entryCell (t.cover i n))) := by
  obtain ⟨c1, c2, c3, c4⟩ := t.contains hi hn
  obtain ⟨hrow, hcol⟩ := hcorner
  have hwidth : (entryCell (t.cover i n)).colSpan = (t.cover i n).width := rfl
  have hpushed : (m.push i n (entryCell (t.cover i n))).cells =
    m.cells ++ [pushedRect (t.cover i n)] := by
    show m.cells ++ [_] = _
    rw [pushedRect, hrow, hcol]
  have hold : ∀ {k : Nat} {cell : PushedCell}, m.cells[k]? = some cell →
      (m.push i n (entryCell (t.cover i n))).cells[k]? = some cell := by
    intro k cell hk
    rw [hpushed, List.getElem?_append_left (List.getElem?_eq_some_iff.1 hk).1]
    exact hk
  refine ⟨?_, fun c hc => ?_, fun c hc hcols => ?_⟩
  · have hrest := rowFrom_width_pass hi hn ⟨hrow, hcol⟩ ((t.cover i n).width - 1) (by omega)
    rw [show n + 1 + ((t.cover i n).width - 1) = n + (t.cover i n).width by omega] at hrest
    rw [← h.cells, hpushed, Tiling.rowFrom_corner hn ⟨hrow, hcol⟩, hrest]
    simp
  · rw [lookup_push, hwidth]
    by_cases hlt : n ≤ c
    · rw [if_pos ⟨hlt, hc⟩]
      refine ⟨_, rfl, ?_⟩
      rw [hpushed, List.getElem?_concat_length,
        t.same hi hn (a := i) (b := c) ⟨c1, c2, by omega, by omega⟩]
    · obtain ⟨k, hk, hcell⟩ := h.left c (by omega)
      rw [if_neg (by omega)]
      exact ⟨k, hk, hold hcell⟩
  · have hright := h.right c (by omega) hcols
    have hlookup : (m.push i n (entryCell (t.cover i n))).owners.lookup c = m.owners.lookup c := by
      rw [lookup_push, hwidth, if_neg (by omega)]
    rw [hlookup]
    split at hright
    · rename_i hzero
      rw [if_pos hzero]
      exact hright
    · rename_i hpos
      obtain ⟨k, hk, hcell⟩ := hright
      rw [if_neg hpos]
      exact ⟨k, hk, hold hcell⟩

/-- The entries of a row from column `n` on. -/
def cellsFrom (t : Tiling PlainText) (i n : Nat) : List LatexCell :=
  (List.range' n (t.cols - n)).flatMap (cellsAt t i)

theorem cellsFrom_above (hn : n < t.cols) (habove : (t.cover i n).row ≠ i) :
    cellsFrom t i n = {} :: cellsFrom t i (n + 1) := by
  rw [cellsFrom, Tiling.range'_sub hn, List.flatMap_cons, cellsAt, if_neg habove]
  rfl

/-- Right of a corner its rectangle has no entries. -/
theorem cellsFrom_corner (hi : i < t.rows) (hn : n < t.cols)
    (hcorner : (t.cover i n).IsCorner i n) :
    cellsFrom t i n = entryCell (t.cover i n) :: cellsFrom t i (n + (t.cover i n).width) := by
  obtain ⟨c1, c2, c3, c4⟩ := t.contains hi hn
  have hin := t.inside hi hn
  obtain ⟨hrow, hcol⟩ := hcorner
  have hskip : ∀ k, k < (t.cover i n).width →
    cellsFrom t i (n + 1) = cellsFrom t i (n + 1 + k) := by
    intro k
    induction k with
    | zero => intro _; rfl
    | succ k ih =>
      intro hk
      have hsame := t.same hi hn (a := i) (b := n + 1 + k) ⟨c1, c2, by omega, by omega⟩
      have hnone : cellsAt t i (n + 1 + k) = [] := by
        rw [cellsAt, hsame, if_pos hrow, if_neg (by omega)]
      rw [ih (by omega), cellsFrom, Tiling.range'_sub (by omega), List.flatMap_cons, hnone]
      rfl
  have hrest := hskip ((t.cover i n).width - 1) (by omega)
  rw [show n + 1 + ((t.cover i n).width - 1) = n + (t.cover i n).width by omega] at hrest
  rw [← hrest, cellsFrom, Tiling.range'_sub hn, List.flatMap_cons, cellsAt, if_pos hrow,
    if_pos hcol]
  rfl

/-- A row of a rendered tiling pushes the row's rectangles. -/
theorem layoutRow_tiling (hi : i < t.rows) (hwide : t.cols ≤ kMaxLatexColumns) :
    ∀ (k : Nat) {n : Nat} {m : Layout}, t.cols - n ≤ k → n ≤ t.cols → Scanned t i n m →
    (n < t.cols → (t.cover i n).row = i → (t.cover i n).col = n) →
    ∃ m', layoutRow i (cellsFrom t i n) m n = some m' ∧ Scanned t i t.cols m' := by
  intro k
  induction k with
  | zero =>
    intro n m hk hn h _
    obtain rfl : n = t.cols := by omega
    have hend : cellsFrom t i t.cols = [] := by simp [cellsFrom]
    exact ⟨m, by rw [hend, layoutRow], h⟩
  | succ k ih =>
    intro n m hk hn h hedge
    by_cases hlt : n < t.cols
    · obtain ⟨c1, c2, c3, c4⟩ := t.contains hi hlt
      have hin := t.inside hi hlt
      have howner := h.owner hi hlt
      by_cases habove : (t.cover i n).row < i
      · -- an empty entry under its rectangle
        have hskip : layoutRow i (cellsFrom t i n) m n =
          layoutRow i (cellsFrom t i (n + 1)) m (n + 1) := by
          rw [cellsFrom_above hlt (by omega), layoutRow, howner, decide_eq_true habove]
          rfl
        rw [hskip]
        refine ih (by omega) (by omega) (h.pass hi hlt habove) fun hn' hrow => ?_
        obtain ⟨d1, d2, d3, d4⟩ := t.contains hi hn'
        by_contra hne
        have hsame := t.same hi hn' (a := i) (b := n) ⟨d1, d2, by omega, by omega⟩
        rw [hsame] at habove
        omega
      · have hcorner : (t.cover i n).IsCorner i n := ⟨by omega, hedge hlt (by omega)⟩
        have hnone : m.owner i n = none := by
          rw [decide_eq_false habove] at howner
          exact Option.not_isSome_iff_eq_none.1 (by rw [howner]; simp)
        have hpush : layoutRow i (cellsFrom t i n) m n =
          layoutRow i (cellsFrom t i (n + (t.cover i n).width))
            (m.push i n (entryCell (t.cover i n))) (n + (t.cover i n).width) := by
          have hfit : ¬ n + (entryCell (t.cover i n)).colSpan > kMaxLatexColumns := by
            show ¬ n + (t.cover i n).width > _
            have := hcorner.2
            omega
          rw [cellsFrom_corner hi hlt hcorner, layoutRow, hnone]
          simp only [Option.isSome_none, Bool.false_and, Bool.false_eq_true, if_false, hfit]
          rfl
        rw [hpush]
        have hcol := hcorner.2
        refine ih (by omega) (by omega) (h.push hi hlt hcorner) fun hn' _ => ?_
        have hmem : t.cover i n ∈ t.rects := Tiling.mem_rects.2 ⟨i, n, hi, hlt, rfl⟩
        have hedge' :=
          Tiling.right_edge hmem c1 c2
          (show (t.cover i n).col + (t.cover i n).width < t.cols by omega)
        rwa [hcol] at hedge'
    · obtain rfl : n = t.cols := by omega
      exact ih (by omega) (Nat.le_refl _) h fun hn' => absurd hn' (Nat.lt_irrefl _)

theorem Scanned.next (h : Scanned t i t.cols m) : Scanned t (i + 1) 0 m where
  cells := by
    have hcells := h.cells
    rw [Tiling.rowFrom_end (Nat.le_refl _), List.map_nil, List.append_nil] at hcells
    rw [hcells, Tiling.rowFrom_zero]
    simp [List.range_succ]
  left := fun c hc => absurd hc (Nat.not_lt_zero c)
  right := by
    intro c _ hc
    rw [if_neg (Nat.succ_ne_zero i), Nat.add_sub_cancel]
    exact h.left c hc

end Scan

theorem scanned_start (t : Tiling PlainText) : Scanned t 0 0 {} where
  cells := by simp [Tiling.rowFrom_zero]
  left := fun c hc => absurd hc (Nat.not_lt_zero c)
  right := fun c _ _ => rfl

/-- **The layout of a rendered tiling** pushes its rectangles in order. -/
theorem layoutRows_tiling {t : Tiling PlainText} (hwide : t.cols ≤ kMaxLatexColumns) :
    ∀ {k i : Nat} {m : Layout}, i + k = t.rows → Scanned t i 0 m →
    ∃ s, layoutRows i ((List.range' i k).map fun i => (List.range t.cols).flatMap (cellsAt t i)) m =
      some s ∧
      s.cells = t.rects.map pushedRect := by
  intro k
  induction k with
  | zero =>
    intro i m hk h
    refine ⟨m, rfl, ?_⟩
    have hcells := h.cells
    rw [Tiling.rowFrom_zero, List.range_succ, List.flatMap_append, List.map_append,
      List.flatMap_singleton, List.append_cancel_right_eq] at hcells
    rw [hcells, Tiling.rects, ← hk]
    rfl
  | succ k ih =>
    intro i m hk h
    have hi : i < t.rows := by omega
    have hfirst : ∀ h0 : 0 < t.cols, (t.cover i 0).row = i → (t.cover i 0).col = 0 := by
      intro h0 _
      have := (t.contains hi h0).2.2.1
      omega
    obtain ⟨m', hrow, hm'⟩ :=
      layoutRow_tiling hi hwide t.cols (Nat.sub_le _ _) (Nat.zero_le _) h hfirst
    have hzero : cellsFrom t i 0 = (List.range t.cols).flatMap (cellsAt t i) := by
      rw [cellsFrom, List.range_eq_range', Nat.sub_zero]
    obtain ⟨s, hs, hcells⟩ := ih (by omega) hm'.next
    refine ⟨s, ?_, hcells⟩
    rw [List.range'_succ, List.map_cons, layoutRows, ← hzero, hrow]
    exact hs

/-! ## The HTML stage -/

section Round
variable {t : Tiling PlainText}

/-- A plain text is the text of its cell. -/
theorem cellBody_plain (p : PlainText) :
    CellBody (markdownInlineHtml p.text) (textNodes p.text) := by
  have hstar : p.text.contains 0x2A = false := by
    rw [List.contains_eq_mem, decide_eq_false_iff_not]
    intro hm
    exact absurd (p.plain _ hm) (by decide)
  have hunder : p.text.contains 0x5F = false := by
    rw [List.contains_eq_mem, decide_eq_false_iff_not]
    intro hm
    exact absurd (p.plain _ hm) (by decide)
  have hsame : markdownInlineHtml p.text = p.text := by
    rw [markdownInlineHtml, hstar, hunder]
    rfl
  have hlt : 0x3C ∉ p.text := fun hm => (isOrdinary_ne (p.ordinary _ hm)).2.2.2.2.1 rfl
  have hamp : 0x26 ∉ p.text := fun hm => (isOrdinary_ne (p.ordinary _ hm)).2.2.2.1 rfl
  have hnodes : (Builder.text ⟨[], []⟩ p.text).nodes = textNodes p.text := by
    unfold Builder.text textNodes
    split
    · rfl
    · simp [Builder.nodes, Builder.popN, extendText, decodeEntities_eq hamp]
  intro a close rest _ hclose hraw
  rw [hsame, parseRest_tag hlt hclose hraw, a.place_text]
  show parseRest .html ((a.place (Builder.text ⟨[], []⟩ p.text)).closeTag a.tag) [] rest = _
  rw [a.place_close (onlyInline_empty.text _), hnodes]

/-- What the rows above take of row `i`. -/
theorem taken_rects {i : Nat} (hi : i < t.rows) (c : Nat) :
    Taken (t.rects.map pushedRect) i c ↔ c < t.cols ∧ (t.cover i c).row < i := by
  constructor
  · rintro ⟨cell, hcell, hrow, h1, h2, h3⟩
    obtain ⟨r, hr, rfl⟩ := List.mem_map.1 hcell
    obtain ⟨a, b, ha, hb, rfl⟩ := Tiling.mem_rects.1 hr
    have hin := t.inside ha hb
    have hrow' : (t.cover a b).row < i := hrow
    have hcol' : c < (t.cover a b).col + (t.cover a b).width := h2
    have hsame := t.same ha hb (a := i) (b := c) ⟨by omega, h3, h1, hcol'⟩
    exact ⟨by omega, by rw [hsame]; exact hrow'⟩
  · rintro ⟨hc, hrow⟩
    obtain ⟨c1, c2, c3, c4⟩ := t.contains hi hc
    exact ⟨pushedRect (t.cover i c), List.mem_map_of_mem (Tiling.mem_rects.2 ⟨i, c, hi, hc, rfl⟩),
      hrow, c3, c4, c2⟩

def rectExtent (r : Rect PlainText) : Nat × Nat := (r.col, r.width)

/-- The rectangles of a row fit what is taken from above. -/
theorem fits_rowFrom {i : Nat} (hi : i < t.rows) {n : Nat} (hn : n ≤ t.cols) : ∀ taken col,
    t.RowState i n taken col →
    Fits (fun c => c < t.cols ∧ (t.cover i c).row < i) col ((t.rowFrom i n).map rectExtent) := by
  apply Tiling.row_induction (t := t) ?_ ?_ hn
  · intro taken col _
    rw [Tiling.rowFrom_end (Nat.le_refl _)]
    trivial
  · intro n hn ih taken col h
    by_cases hcorner : (t.cover i n).IsCorner i n
    · obtain ⟨hle, hgap, -⟩ := h.at_corner hi hn hcorner
      have hplace : t.RowState i (n + 1) (fun r c => taken r c ∨
          (r < i + (t.cover i n).height ∧ n ≤ c ∧ c < n + (t.cover i n).width))
          (n + (t.cover i n).width) := h.place hi hn hcorner fun _ _ _ => Iff.rfl
      obtain ⟨hrow, hcol⟩ := hcorner
      rw [Tiling.rowFrom_corner hn ⟨hrow, hcol⟩, List.map_cons]
      show ¬ (_ ∧ _) ∧ _ ∧ Fits _ ((t.cover i n).col + (t.cover i n).width) _
      rw [hcol]
      refine ⟨fun hbad => by omega, fun d h1 h2 => ⟨by omega, ?_⟩, ih _ _ hplace⟩
      rcases (h.taken_iff (Nat.le_refl i) hi (show d < t.cols by omega)).1 (hgap d h1 h2) with
        habove | hsame
      · exact habove
      · have := h.left (show d < t.cols by omega) hsame.1 hsame.2
        omega
    · rw [Tiling.rowFrom_pass hn hcorner]
      exact ih taken col (h.pass hi hcorner)

theorem filter_rects {i : Nat} (hi : i < t.rows) :
    (t.rects.map pushedRect).filter (·.row == i) = (t.rowRects i).map pushedRect := by
  have hrow : ∀ k, ((t.rowRects k).map pushedRect).filter (·.row == i) =
      if k = i then (t.rowRects k).map pushedRect else [] := by
    intro k
    split
    · rename_i hk
      rw [List.filter_eq_self]
      intro cell hcell
      obtain ⟨r, hr, rfl⟩ := List.mem_map.1 hcell
      obtain ⟨j, -, -, hc⟩ := Tiling.mem_rowRects.1 hr
      exact beq_iff_eq.2 (hc.1.trans hk)
    · rename_i hk
      rw [List.filter_eq_nil_iff]
      intro cell hcell heq
      obtain ⟨r, hr, rfl⟩ := List.mem_map.1 hcell
      obtain ⟨j, -, -, hc⟩ := Tiling.mem_rowRects.1 hr
      exact hk (hc.1.symm.trans (beq_iff_eq.1 heq))
  have hall : ∀ n, i < n →
    (((List.range n).flatMap t.rowRects).map pushedRect).filter (·.row == i) =
      (t.rowRects i).map pushedRect := by
    intro n
    induction n with
    | zero => intro h; omega
    | succ n ih =>
      intro h
      rw [List.range_succ, List.flatMap_append, List.map_append, List.filter_append,
        List.flatMap_singleton, hrow]
      by_cases hn : n = i
      · have hnone : (((List.range n).flatMap t.rowRects).map pushedRect).filter (·.row == i) =
          [] := by
          rw [List.filter_eq_nil_iff]
          intro cell hcell heq
          obtain ⟨r, hr, rfl⟩ := List.mem_map.1 hcell
          obtain ⟨k, hk, hr⟩ := List.mem_flatMap.1 hr
          obtain ⟨j, -, -, hc⟩ := Tiling.mem_rowRects.1 hr
          have hki : r.row = i := beq_iff_eq.1 heq
          have := hc.1
          rw [List.mem_range] at hk
          omega
        rw [hnone, if_pos hn, hn]
        rfl
      · rw [ih (by omega), if_neg hn, List.append_nil]
  exact hall t.rows hi

/-- The cell a rectangle comes back as. -/
def rectSpan (r : Rect PlainText) : SpanCell :=
  ⟨r.row, r.col, r.height, r.width, r.value.text, false, false⟩

/-- The body of a pushed plain cell. -/
def plainBody (cell : PushedCell) : List MarkupNode := textNodes cell.text

theorem chandraCell_rect {r : Rect PlainText} (hin : r.row + r.height ≤ t.rows) :
    chandraCell (placedCell t.rows plainBody (pushedRect r)) = rectSpan r := by
  have hheight : min (t.rows - r.row) r.height = r.height := by omega
  have htext : collapseWhitespace (htmlText (cellNode plainBody (pushedRect r))) =
    r.value.text := by
    have hnode : htmlText (cellNode plainBody (pushedRect r)) = r.value.text :=
      htmlTextIn_textNodes r.value.text
    rw [hnode, r.value.normalised]
  have hcell : chandraCell (placedCell t.rows plainBody (pushedRect r)) = ⟨r.row, r.col,
      min (t.rows - r.row) r.height, r.width,
        collapseWhitespace (htmlText (cellNode plainBody (pushedRect r))),
      false, false⟩ := rfl
  rw [hcell, hheight, htext, rectSpan]

/-- **LaTeX tables round trip.** A rendered tiling converts, and the cells read
from its HTML are its rectangles in order, with their spans and texts. -/
theorem latex_round_trip (t : Tiling PlainText) (spec : Option ColumnSpec)
    (hrows : t.rows ≤ kMaxLatexColumns)
    (hcols : 2 ≤ t.cols) (hwide : t.cols ≤ kMaxLatexColumns) :
    ∃ html table, latexTabularToHtml (renderLatex spec t) = some html ∧
      findElement (ascii "table") (parseMarkup .html html) = some table ∧
      chandraTableCells table = t.rects.map rectSpan := by
  have hentries := tabularRows_renderLatex hcols spec hrows hwide
  obtain ⟨s, hs, hcells⟩ :=
    layoutRows_tiling hwide (show 0 + t.rows = t.rows by omega) (scanned_start t)
  rw [← List.range_eq_range', ← hentries] at hs
  have hlength : (tabularRows (renderLatex spec t)).length = t.rows := by rw [hentries]; simp
  have hgrid : latexGrid (renderLatex spec t) =
      some ((List.range t.rows).map fun r => s.cells.filter (·.row == r)) := by
    rw [latexGrid, hs, ← hlength]
    rfl
  obtain ⟨s', hs', hinv, hgridEq, hflat⟩ := latexGrid_inv hgrid
  rw [hs, Option.some.injEq] at hs'
  subst hs'
  rw [hlength] at hinv
  have hreadable : ∀ row ∈ (List.range t.rows).map (fun r => s.cells.filter (·.row == r)),
    ∀ cell ∈ row,
      Readable plainBody cell := by
    intro row hrow cell hcell
    have hmem : cell ∈ s.cells := by
      rw [← hflat]
      exact List.mem_flatten.2 ⟨row, hrow, hcell⟩
    refine ⟨hinv.smallSpans cell hmem, ?_⟩
    rw [hcells] at hmem
    obtain ⟨r, -, rfl⟩ := List.mem_map.1 hmem
    exact cellBody_plain r.value
  refine ⟨_, gridNode plainBody ((List.range t.rows).map fun r => s.cells.filter (·.row == r)),
    by rw [latexTabularToHtml, hgrid]; rfl, by rw [parseMarkup_renderTable hreadable]; rfl, ?_⟩
  have hfits : ∀ i, i < t.rows →
      Fits (Taken s.cells i) 0 ((s.cells.filter (·.row == i)).map PushedCell.extent) := by
    intro i hi
    have htaken : Taken s.cells i = fun c => c < t.cols ∧ (t.cover i c).row < i := by
      funext c
      rw [hcells]
      exact propext (taken_rects hi c)
    have hrow := fits_rowFrom hi (Nat.zero_le _) _ _ (t.rowState_start i)
    rw [Tiling.rowFrom_zero] at hrow
    rw [htaken, hcells, filter_rects hi, List.map_map]
    exact hrow
  rw [chandraTableCells_place, (place_layout_iff plainBody hinv rfl hflat).2 hfits, hcells,
    List.map_map, List.map_map]
  refine List.map_congr_left fun r hr => ?_
  exact chandraCell_rect (Tiling.rects_max.1 r hr).1

end Round

/-- A cell two columns wide, and under it one two rows high. -/
def sampleTiling : Tiling PlainText where
  rows := 3
  cols := 2
  cover i j :=
    if i = 0 then ⟨0, 0, 1, 2, ⟨ascii "a b", List.all_eq_true.1 (by decide), by decide, by decide⟩⟩
    else if j = 0 then
      ⟨1, 0, 2, 1, ⟨ascii "c", List.all_eq_true.1 (by decide), by decide, by decide⟩⟩
    else ⟨i, 1, 1, 1, ⟨[], List.all_eq_true.1 (by decide), by decide, by decide⟩⟩
  rows_pos := Nat.succ_pos 2
  cols_pos := Nat.succ_pos 1
  contains := by
    intro i j hi hj
    split
    · simp only [Rect.Contains]; omega
    · split <;> simp only [Rect.Contains] <;> omega
  same := by
    intro i j i' j' hi hj
    split
    · intro h
      simp only [Rect.Contains] at h
      rw [if_pos (by omega)]
    · split
      · intro h
        simp only [Rect.Contains] at h
        rw [if_neg (by omega), if_pos (by omega)]
      · intro h
        simp only [Rect.Contains] at h
        rw [if_neg (by omega), if_neg (by omega), show i' = i by omega]
  inside := by
    intro i j hi hj
    split
    · exact ⟨by decide, by decide⟩
    · split
      · exact ⟨by decide, by decide⟩
      · exact ⟨show i + 1 ≤ 3 by omega, Nat.le_refl 2⟩

theorem latex_round_trip_sample :
    renderLatex none sampleTiling =
      ascii "\\multicolumn\x7b2\x7d\x7bc\x7d\x7ba b\x7d\\\\\\multirow\x7b2\x7d\x7b*\x7d\x7bc\x7d&\\\\&" ∧
    ∃ html table, latexTabularToHtml (renderLatex none sampleTiling) = some html ∧
      findElement (ascii "table") (parseMarkup .html html) = some table ∧
      chandraTableCells table = sampleTiling.rects.map rectSpan :=
  ⟨by decide, latex_round_trip sampleTiling none (by decide) (by decide) (by decide)⟩

end VlmConvert.L2.Latex

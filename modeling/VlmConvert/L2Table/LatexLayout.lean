import VlmConvert.L2Table.Latex

/-!
# The layout of LaTeX tables

What holds of the pushed cells after every row: the spans are written spans or
shortened ones, the cells stand in reading order, and an owner of a column is
a pushed cell over that column.

Results:

* `latexGrid_inv`: the rows of every laid out table.
* `latexSpans_safe`: the spans of every cell, and the row numbers at every cut.
-/
namespace VlmConvert.L2.Latex

open Bytes L1

/-! ## Spans -/

theorem le_ofDigits (l : Bytes) :
    ∀ acc : Nat, acc ≤ l.foldl (fun n d => n * 10 + (d.toNat - 0x30)) acc := by
  induction l with
  | nil => intro acc; exact Nat.le_refl acc
  | cons d l ih => intro acc; exact Nat.le_trans (by omega) (ih (acc * 10 + (d.toNat - 0x30)))

theorem spanValue_bounds (value : Bytes) :
    1 ≤ spanValue value ∧ spanValue value ≤ kMaxLatexColumns + 1 := by
  unfold spanValue
  dsimp only
  split
  · exact ⟨Nat.le_refl 1, by decide⟩
  · rename_i hdigits
    split
    · exact ⟨by decide, Nat.le_refl _⟩
    · refine ⟨?_, Nat.min_le_right _ _⟩
      rw [Bool.or_eq_true, not_or] at hdigits
      obtain ⟨hne, hall⟩ := hdigits
      cases hd : (trim value).dropWhile (· == 0x30) with
      | nil => rw [hd] at hne; exact absurd rfl hne
      | cons d rest =>
        rw [hd] at hall
        have hdigit : isDigit d = true := by
          simp only [List.all_cons, Bool.not_eq_true', Bool.and_eq_false_iff, not_or,
            Bool.not_eq_false] at hall
          exact hall.1
        have hzero : d ≠ 0x30 := by
          have := List.head?_dropWhile_not (· == (0x30 : UInt8)) (trim value)
          rw [hd] at this
          simpa using this
        have hpos : 1 ≤ d.toNat - 0x30 := by
          simp only [isDigit, Bool.and_eq_true, decide_eq_true_eq, UInt8.le_iff_toNat_le] at hdigit
          have hne : d.toNat ≠ 0x30 := fun he => hzero (UInt8.toNat_inj.1 he)
          have h30 : (0x30 : UInt8).toNat = 0x30 := rfl
          omega
        have hle := le_ofDigits rest (0 * 10 + (d.toNat - 0x30))
        refine Nat.le_min.2 ⟨?_, by decide⟩
        show 1 ≤ rest.foldl _ (0 * 10 + (d.toNat - 0x30))
        omega

/-- The spans of a cell as written. -/
structure LatexCell.Bounded (cell : LatexCell) : Prop where
  rowSpan_pos : 1 ≤ cell.rowSpan
  rowSpan_le : cell.rowSpan ≤ kMaxLatexColumns + 1
  colSpan_pos : 1 ≤ cell.colSpan

theorem unwrapCell_bounded : ∀ (n : Nat) {cell : LatexCell} (text : Bytes), cell.Bounded →
    (unwrapCell n cell text).1.Bounded := by
  intro n
  induction n with
  | zero => intro cell text h; exact h
  | succ n ih =>
    intro cell text h
    rw [unwrapCell]
    split
    · exact ih _ ⟨h.rowSpan_pos, h.rowSpan_le, (spanValue_bounds _).1⟩
    · split
      · exact ih _ ⟨(spanValue_bounds _).1, (spanValue_bounds _).2, h.colSpan_pos⟩
      · split
        · exact ih _ ⟨h.rowSpan_pos, h.rowSpan_le, h.colSpan_pos⟩
        · exact h

theorem parseLatexCell_bounded (text : Bytes) : (parseLatexCell text).Bounded := by
  have hstart : LatexCell.Bounded {} := ⟨Nat.le_refl 1, by decide, Nat.le_refl 1⟩
  have h := unwrapCell_bounded text.length text hstart
  exact ⟨h.rowSpan_pos, h.rowSpan_le, h.colSpan_pos⟩

/-! ## The invariant -/

/-- Where a cell was pushed. -/
def PushedCell.place (cell : PushedCell) : Nat × Nat × Nat := (cell.row, cell.col, cell.colSpan)

/-- One cell stands before another in reading order. -/
def Before (a b : Nat × Nat × Nat) : Prop := a.1 < b.1 ∨ (a.1 = b.1 ∧ a.2.1 + a.2.2 ≤ b.2.1)

/-- After the entries of row `r` left of column `col`. -/
structure LayoutInv (s : Layout) (r col : Nat) : Prop where
  spans : ∀ cell ∈ s.cells, cell.Bounded ∧ cell.col + cell.colSpan ≤ kMaxLatexColumns
  rows : ∀ cell ∈ s.cells, cell.row < r ∨ (cell.row = r ∧ cell.col + cell.colSpan ≤ col)
  ordered : (s.cells.map PushedCell.place).Pairwise Before
  owned : ∀ c i, s.owners.lookup c = some i → ∃ cell, s.cells[i]? = some cell ∧
    cell.col ≤ c ∧ c < cell.col + cell.colSpan

theorem layoutInv_empty : LayoutInv {} 0 0 where
  spans := by simp
  rows := by simp
  ordered := .nil
  owned := by simp

theorem LayoutInv.skip {s : Layout} {r col : Nat} (h : LayoutInv s r col) (n : Nat) :
    LayoutInv s r (col + n) where
  spans := h.spans
  rows := fun cell hc => (h.rows cell hc).imp id fun hr => ⟨hr.1, by omega⟩
  ordered := h.ordered
  owned := h.owned

theorem LayoutInv.next {s : Layout} {r col : Nat} (h : LayoutInv s r col) :
    LayoutInv s (r + 1) 0 where
  spans := h.spans
  rows := fun cell hc => .inl (by rcases h.rows cell hc with hr | hr <;> omega)
  ordered := h.ordered
  owned := h.owned

/-- The owner of a column ahead started in an earlier row. -/
theorem LayoutInv.owner_row {s : Layout} {r col i : Nat} (h : LayoutInv s r col)
    (howner : s.owner r col = some i) : ∃ cell, s.cells[i]? = some cell ∧ cell.row < r ∧
      r < cell.row + cell.rowSpan := by
  unfold Layout.owner at howner
  obtain ⟨hlookup, hreach⟩ := Option.filter_eq_some_iff.1 howner
  obtain ⟨cell, hcell, h1, h2⟩ := h.owned col i hlookup
  have hat : s.cell i = cell := by rw [Layout.cell, List.getD_eq_getElem?_getD, hcell]; rfl
  rw [hat] at hreach
  refine ⟨cell, hcell, ?_, of_decide_eq_true hreach⟩
  rcases h.rows cell (List.mem_of_getElem? hcell) with hr | hr
  · exact hr
  · omega

theorem LayoutInv.shorten {s : Layout} {r col i : Nat} (h : LayoutInv s r col)
    (howner : s.owner r col = some i) : LayoutInv (s.shorten i r) r col := by
  obtain ⟨owner, howned, hrow, hreach⟩ := h.owner_row howner
  have hcells : ∀ cell ∈ (s.shorten i r).cells, cell ∈ s.cells ∨
      cell = { owner with rowSpan := r - owner.row } := by
    intro cell hc
    obtain ⟨j, hj⟩ := List.mem_iff_getElem?.1 hc
    rw [Layout.shorten, List.getElem?_modify] at hj
    obtain ⟨y, hy, he⟩ := Option.map_eq_some_iff.1 hj
    split at he
    · rename_i hij
      rw [← hij, howned] at hy
      cases hy
      exact .inr he.symm
    · exact .inl (he ▸ List.mem_of_getElem? hy)
  have hin := List.mem_of_getElem? howned
  refine ⟨fun cell hc => ?_, fun cell hc => ?_, ?_, fun c j hlookup => ?_⟩
  · rcases hcells cell hc with hc | rfl
    · exact h.spans cell hc
    · obtain ⟨hbound, hend⟩ := h.spans owner hin
      have := hbound.rowSpan_le
      exact ⟨⟨show 1 ≤ r - owner.row by omega, show r - owner.row ≤ _ by omega, hbound.colSpan_pos⟩,
        hend⟩
  · rcases hcells cell hc with hc | rfl
    · exact h.rows cell hc
    · exact h.rows owner hin
  · have hmap : (s.shorten i r).cells.map PushedCell.place = s.cells.map PushedCell.place :=
      map_modify _ _ _ _ fun _ => rfl
    rw [hmap]
    exact h.ordered
  · obtain ⟨cell, hcell, hcover⟩ := h.owned c j hlookup
    rw [Layout.shorten, List.getElem?_modify, hcell]
    exact ⟨_, rfl, by split <;> exact hcover⟩

theorem LayoutInv.push {s : Layout} {r col : Nat} (h : LayoutInv s r col) {cell : LatexCell}
    (hcell : cell.Bounded) (hend : col + cell.colSpan ≤ kMaxLatexColumns) :
    LayoutInv (s.push r col cell) r (col + cell.colSpan) := by
  have hnew : ∀ c ∈ (s.push r col cell).cells, c ∈ s.cells ∨
    c = { cell with row := r, col := col } := by
    intro c hc
    rcases List.mem_append.1 hc with hc | hc
    · exact .inl hc
    · exact .inr (List.mem_singleton.1 hc)
  refine ⟨fun c hc => ?_, fun c hc => ?_, ?_, fun c i hlookup => ?_⟩
  · rcases hnew c hc with hc | rfl
    · exact h.spans c hc
    · exact ⟨⟨hcell.rowSpan_pos, hcell.rowSpan_le, hcell.colSpan_pos⟩, hend⟩
  · rcases hnew c hc with hc | rfl
    · exact (h.rows c hc).imp id fun hr => ⟨hr.1, by omega⟩
    · exact .inr ⟨rfl, Nat.le_refl _⟩
  · show ((s.cells ++ [_]).map PushedCell.place).Pairwise Before
    rw [List.map_append, List.pairwise_append]
    refine ⟨h.ordered, List.pairwise_singleton _ _, ?_⟩
    intro a ha b hb
    obtain ⟨c, hc, rfl⟩ := List.mem_map.1 ha
    rw [List.map_singleton, List.mem_singleton] at hb
    subst hb
    exact h.rows c hc
  · have hlookup' :
      (((List.range' col cell.colSpan).map fun c => (c, s.cells.length)) ++ s.owners).lookup c =
      some i := hlookup
    rw [List.lookup_append] at hlookup'
    rcases Option.or_eq_some_iff.1 hlookup' with hnow | ⟨-, hbefore⟩
    · obtain ⟨before, after, hsplit, -⟩ := List.lookup_eq_some_iff.1 hnow
      have hmem : (c, i) ∈ (List.range' col cell.colSpan).map fun c => (c, s.cells.length) := by
        rw [hsplit]
        simp
      obtain ⟨c', hc', he⟩ := List.mem_map.1 hmem
      cases he
      rw [List.mem_range'_1] at hc'
      refine ⟨{ cell with row := r, col := col }, ?_, hc'⟩
      show (s.cells ++ [_])[s.cells.length]? = _
      rw [List.getElem?_concat_length]
    · obtain ⟨old, hold, hcover⟩ := h.owned c i hbefore
      refine ⟨old, ?_, hcover⟩
      show (s.cells ++ [_])[i]? = some old
      rw [List.getElem?_append_left (List.getElem?_eq_some_iff.1 hold).1]
      exact hold

/-- What an entry does: it is covered, or it is pushed, where a text first ends
the cell it stands under. -/
theorem layoutRow_cases {r col : Nat} {cell : LatexCell} {entries : List LatexCell} {s s' : Layout}
    (h : layoutRow r (cell :: entries) s col = some s') :
    ((s.owner r col).isSome = true ∧ cell.text = [] ∧
      layoutRow r entries s (col + cell.colSpan) = some s') ∨
    ∃ s1, ((s.owner r col = none ∧ s1 = s) ∨
        ∃ i, s.owner r col = some i ∧ cell.text ≠ [] ∧ s1 = s.shorten i r) ∧
      col + cell.colSpan ≤ kMaxLatexColumns ∧
      layoutRow r entries (s1.push r col cell) (col + cell.colSpan) = some s' := by
  rw [layoutRow] at h
  split at h
  · rename_i hcovered
    obtain ⟨howner, hempty⟩ := Bool.and_eq_true_iff.1 hcovered
    exact .inl ⟨howner, List.isEmpty_iff.1 hempty, h⟩
  · rename_i hpushed
    refine .inr ?_
    cases howner : s.owner r col with
    | none =>
      rw [howner] at h
      dsimp only at h
      split at h
      · cases h
      · exact ⟨s, .inl ⟨rfl, rfl⟩, by omega, h⟩
    | some i =>
      rw [howner] at h hpushed
      have htext : cell.text ≠ [] := by simpa using hpushed
      dsimp only at h
      split at h
      · cases h
      · exact ⟨s.shorten i r, .inr ⟨i, rfl, htext, rfl⟩, by omega, h⟩

/-- A row keeps the invariant. -/
theorem layoutRow_inv {r : Nat} : ∀ {entries : List LatexCell} {s s' : Layout} {col : Nat},
    (∀ cell ∈ entries, cell.Bounded) → LayoutInv s r col → layoutRow r entries s col = some s' →
    ∃ col', LayoutInv s' r col' := by
  intro entries
  induction entries with
  | nil =>
    intro s s' col _ h hrow
    cases hrow
    exact ⟨col, h⟩
  | cons cell entries ih =>
    intro s s' col hall h hrow
    have hrest := fun c hc => hall c (List.mem_cons_of_mem cell hc)
    rcases layoutRow_cases hrow with ⟨-, -, hrow⟩ | ⟨s1, hs1, hend, hrow⟩
    · exact ih hrest (h.skip _) hrow
    · have hshort : LayoutInv s1 r col := by
        rcases hs1 with ⟨-, rfl⟩ | ⟨i, howner, -, rfl⟩
        · exact h
        · exact h.shorten howner
      exact ih hrest (hshort.push (hall cell List.mem_cons_self) hend) hrow

/-- All rows keep it. -/
theorem layoutRows_inv : ∀ {rows : List (List LatexCell)} {r : Nat} {s s' : Layout},
    (∀ entries ∈ rows, ∀ cell ∈ entries, cell.Bounded) → LayoutInv s r 0 →
    layoutRows r rows s = some s' → LayoutInv s' (r + rows.length) 0 := by
  intro rows
  induction rows with
  | nil =>
    intro r s s' _ h hrows
    cases hrows
    exact h
  | cons entries rows ih =>
    intro r s s' hall h hrows
    rw [layoutRows] at hrows
    split at hrows
    · cases hrows
    · rename_i s1 hrow
      obtain ⟨col', h1⟩ := layoutRow_inv (hall entries List.mem_cons_self) h hrow
      have h2 := ih (fun e he => hall e (List.mem_cons_of_mem entries he)) h1.next hrows
      rw [List.length_cons, show r + (rows.length + 1) = r + 1 + rows.length by omega]
      exact h2

/-! ## The rows of the grid -/

theorem filter_split {cells : List PushedCell} {k : Nat}
    (hsorted : cells.Pairwise fun a b => a.row ≤ b.row) (hk : ∀ c ∈ cells, k ≤ c.row) :
    cells = cells.filter (·.row == k) ++ cells.filter fun c => !(c.row == k) := by
  induction cells with
  | nil => rfl
  | cons c cells ih =>
    obtain ⟨hfirst, hsorted'⟩ := List.pairwise_cons.1 hsorted
    cases hc : c.row == k with
    | true =>
      simp only [List.filter_cons, hc, if_true, Bool.not_true, Bool.false_eq_true, if_false,
        List.cons_append, List.cons.injEq, true_and]
      exact ih hsorted' fun c' hc' => hk c' (List.mem_cons_of_mem c hc')
    | false =>
      -- a later row comes first: none of row `k` is left
      have hlt : k < c.row := Nat.lt_of_le_of_ne (hk c List.mem_cons_self) fun he =>
        beq_eq_false_iff_ne.1 hc he.symm
      have hnone : ∀ c' ∈ c :: cells, ¬ (c'.row == k) = true := by
        intro c' hc' he
        rw [beq_iff_eq] at he
        rcases List.mem_cons.1 hc' with rfl | hc'
        · omega
        · have := hfirst c' hc'
          omega
      rw [List.filter_eq_nil_iff.2 hnone, List.nil_append, List.filter_eq_self.2]
      intro c' hc'
      simpa using hnone c' hc'

/-- The rows of cells in reading order are those cells. -/
theorem flatten_rows : ∀ (n k : Nat) {cells : List PushedCell},
    cells.Pairwise (fun a b => a.row ≤ b.row) → (∀ c ∈ cells, k ≤ c.row ∧ c.row < k + n) →
    ((List.range' k n).map fun r => cells.filter (·.row == r)).flatten = cells := by
  intro n
  induction n with
  | zero =>
    intro k cells _ h
    cases cells with
    | nil => rfl
    | cons c cells =>
      have := h c List.mem_cons_self
      omega
  | succ n ih =>
    intro k cells hsorted h
    have hlater : ∀ c ∈ cells.filter (fun c => !(c.row == k)), k + 1 ≤ c.row ∧
      c.row < k + 1 + n := by
      intro c hc
      obtain ⟨hmem, hne⟩ := List.mem_filter.1 hc
      have := h c hmem
      have hne' : c.row ≠ k := by simpa using hne
      omega
    have hrest := ih (k + 1) (hsorted.filter _) hlater
    have hsame : ((List.range' (k + 1) n).map fun r =>
      (cells.filter fun c => !(c.row == k)).filter (·.row == r)) =
        (List.range' (k + 1) n).map fun r => cells.filter (·.row == r) := by
      refine List.map_congr_left ?_
      intro r hr
      rw [List.mem_range'_1] at hr
      rw [List.filter_filter]
      refine List.filter_congr ?_
      intro c _
      cases hc : c.row == r with
      | false => rfl
      | true =>
        rw [beq_iff_eq] at hc
        have hk : (c.row == k) = false := beq_eq_false_iff_ne.2 (by omega)
        rw [hk]
        rfl
    rw [hsame] at hrest
    rw [List.range'_succ, List.map_cons, List.flatten_cons, hrest]
    exact (filter_split hsorted fun c hc => (h c hc).1).symm

theorem bounded_tabularRows (latex : Bytes) :
    ∀ entries ∈ tabularRows latex, ∀ cell ∈ entries, cell.Bounded := by
  intro entries he cell hc
  obtain ⟨row, -, rfl⟩ := List.mem_map.1 he
  obtain ⟨raw, -, rfl⟩ := List.mem_map.1 hc
  exact parseLatexCell_bounded raw

/-- **A table that is laid out**: its grid has a row for each row of entries,
the pushed cells stand in it in order, and the layout keeps its invariant. -/
theorem latexGrid_inv {latex : Bytes} {grid : List (List PushedCell)}
    (h : latexGrid latex = some grid) :
    ∃ s, layoutRows 0 (tabularRows latex) {} = some s ∧ LayoutInv s (tabularRows latex).length 0 ∧
      grid = (List.range (tabularRows latex).length).map (fun r => s.cells.filter (·.row == r)) ∧
      grid.flatten = s.cells := by
  obtain ⟨s, hs, rfl⟩ := Option.map_eq_some_iff.1 h
  have hinv := layoutRows_inv (bounded_tabularRows latex) layoutInv_empty hs
  rw [Nat.zero_add] at hinv
  refine ⟨s, hs, hinv, rfl, ?_⟩
  rw [List.range_eq_range']
  refine flatten_rows _ 0 ?_ fun c hc => ⟨Nat.zero_le _, ?_⟩
  · refine (List.pairwise_map.1 hinv.ordered).imp ?_
    rintro a b (hlt | ⟨heq, -⟩)
    · exact Nat.le_of_lt hlt
    · exact Nat.le_of_eq heq
  · rcases hinv.rows c hc with hr | hr
    · omega
    · have := (hinv.spans c hc).1.colSpan_pos
      omega

/-! ## The run of the loops -/

theorem unwrapCell_colSpan : ∀ (n : Nat) {cell : LatexCell} (text : Bytes),
    cell.colSpan ≤ kMaxLatexColumns + 1 →
      (unwrapCell n cell text).1.colSpan ≤ kMaxLatexColumns + 1 := by
  intro n
  induction n with
  | zero => intro cell text h; exact h
  | succ n ih =>
    intro cell text h
    rw [unwrapCell]
    split
    · exact ih _ (spanValue_bounds _).2
    · split
      · exact ih _ h
      · split
        · exact ih _ h
        · exact h

/-- A loop that has ended does nothing with more turns. -/
theorem unwrapCell_stable : ∀ (n more : Nat) (cell : LatexCell) (text : Bytes),
    unwraps (unwrapCell n cell text).2 = false →
    unwrapCell (n + more) cell text = unwrapCell n cell text := by
  intro n
  induction n with
  | zero =>
    intro more cell text h
    have hnone : unwraps text = false := h
    simp only [unwraps, Bool.or_eq_false_iff, Option.isSome_eq_false_iff, Option.isNone_iff_eq_none]
      at hnone
    cases more with
    | zero => rfl
    | succ more =>
      have hstop : unwrapCell (more + 1) cell text = (cell, text) := by
        rw [unwrapCell, hnone.1.1, hnone.1.2, hnone.2]
      rw [Nat.zero_add, hstop, unwrapCell]
  | succ n ih =>
    intro more cell text h
    rw [show n + 1 + more = n + more + 1 by omega]
    rw [unwrapCell] at h ⊢
    rw [unwrapCell]
    split at h
    · exact ih more _ _ h
    · split at h
      · exact ih more _ _ h
      · split at h
        · exact ih more _ _ h
        · rfl

/-- One turn of the loop over the entries of a row; `none`: too wide. -/
def Layout.entry (s : Layout) (rowIndex col : Nat) (cell : LatexCell) : Option Layout :=
  if (s.owner rowIndex col).isSome && cell.text.isEmpty then some s
  else
    let s := match s.owner rowIndex col with
      | some i => s.shorten i rowIndex
      | none => s
    if col + cell.colSpan > kMaxLatexColumns then none else some (s.push rowIndex col cell)

theorem layoutRow_cons (rowIndex col : Nat) (cell : LatexCell) (cells : List LatexCell)
    (s : Layout) :
    layoutRow rowIndex (cell :: cells) s col =
      (s.entry rowIndex col cell).bind fun s =>
        layoutRow rowIndex cells s (col + cell.colSpan) := by
  rw [layoutRow, Layout.entry]
  split
  · rfl
  · dsimp only
    split <;> rfl

/-- Between two turns: where the loops are, what is ahead of them, and the
cells pushed so far. -/
structure LayoutRun where
  rowIndex : Nat := 0
  col : Nat := 0
  entries : List LatexCell
  rows : List (List LatexCell)
  layout : Layout := {}
  deriving DecidableEq, Repr

inductive LayoutMove
  | entry | row
  deriving DecidableEq, Repr

/-- The next entry of the row, or the next row behind the last entry. -/
def LayoutRun.next (s : LayoutRun) : LayoutMove → Option LayoutRun
  | .entry =>
    match s.entries with
    | [] => none
    | cell :: entries => (s.layout.entry s.rowIndex s.col cell).map fun layout =>
      { s with col := s.col + cell.colSpan, entries := entries, layout := layout }
  | .row =>
    match s.entries, s.rows with
    | [], entries :: rows =>
        some { s with rowIndex := s.rowIndex + 1, col := 0, entries := entries, rows := rows }
    | _, _ => none

/-- The loops over a table that has rows, up to its end or to the entry that
is too wide. -/
def layoutSystem (latex : Bytes) : LTS LayoutRun LayoutMove :=
  LTS.ofFn (fun s => ∃ entries rows, tabularRows latex = entries :: rows ∧
    s = { entries := entries, rows := rows }) LayoutRun.next

/-- What holds between two turns; the rest of the run lays the table out. -/
structure LayoutRun.Inv (latex : Bytes) (s : LayoutRun) : Prop where
  layout : LayoutInv s.layout s.rowIndex s.col
  entries : ∀ cell ∈ s.entries, cell.Bounded
  rows : ∀ entries ∈ s.rows, ∀ cell ∈ entries, cell.Bounded
  ahead : ((layoutRow s.rowIndex s.entries s.layout s.col).bind
    fun layout => layoutRows (s.rowIndex + 1) s.rows layout) = layoutRows 0 (tabularRows latex) {}

/-- A turn that is not too wide keeps the invariant. -/
theorem LayoutInv.entry {s s' : Layout} {r col : Nat} {cell : LatexCell} (h : LayoutInv s r col)
    (hcell : cell.Bounded) (hentry : s.entry r col cell = some s') :
    LayoutInv s' r (col + cell.colSpan) := by
  have hrow : layoutRow r [cell] s col = some s' := by
    rw [layoutRow_cons, hentry]
    rfl
  rcases layoutRow_cases hrow with ⟨-, -, hrow⟩ | ⟨s1, hs1, hend, hrow⟩
  · cases hrow
    exact h.skip _
  · cases hrow
    rcases hs1 with ⟨-, rfl⟩ | ⟨i, howner, -, rfl⟩
    · exact h.push hcell hend
    · exact (h.shorten howner).push hcell hend

theorem layoutRows_cons (r : Nat) (entries : List LatexCell) (rows : List (List LatexCell))
    (s : Layout) :
    layoutRows r (entries :: rows) s =
      (layoutRow r entries s 0).bind fun s => layoutRows (r + 1) rows s := by
  rw [layoutRows]
  cases layoutRow r entries s 0 <;> rfl

theorem layoutSystem_inductive (latex : Bytes) :
    (layoutSystem latex).Inductive (LayoutRun.Inv latex) where
  init := by
    rintro s ⟨entries, rows, hrows, rfl⟩
    have hbounded := bounded_tabularRows latex
    rw [hrows] at hbounded
    refine ⟨layoutInv_empty, hbounded entries List.mem_cons_self,
      fun e he => hbounded e (List.mem_cons_of_mem entries he), ?_⟩
    rw [hrows, layoutRows_cons]
  step := by
    intro s move s' h hstep
    obtain ⟨rowIndex, col, entries, rows, layout⟩ := s
    obtain ⟨hlayout, hentries, hrows, hahead⟩ := h
    dsimp only at hlayout hentries hrows hahead
    cases move with
    | entry =>
      cases entries with
      | nil => cases hstep
      | cons cell entries =>
        obtain ⟨layout', hentry, rfl⟩ := Option.map_eq_some_iff.1 hstep
        dsimp only at hentry
        rw [layoutRow_cons, hentry] at hahead
        exact ⟨hlayout.entry (hentries cell List.mem_cons_self) hentry,
          fun c hc => hentries c (List.mem_cons_of_mem cell hc), hrows, hahead⟩
    | row =>
      cases entries with
      | cons cell entries => cases hstep
      | nil =>
        cases rows with
        | nil => cases hstep
        | cons entries rows =>
          cases hstep
          refine ⟨hlayout.next, hrows entries List.mem_cons_self,
            fun e he => hrows e (List.mem_cons_of_mem entries he), ?_⟩
          rw [← hahead, ← layoutRows_cons]
          rfl

/-- Where the loops end, they leave the layout of the table. -/
theorem layoutSystem_layout {latex : Bytes} {s : LayoutRun} (hs : (layoutSystem latex).Reachable s)
    (hentries : s.entries = []) (hrows : s.rows = []) :
    layoutRows 0 (tabularRows latex) {} = some s.layout := by
  have h := (layoutSystem_inductive latex).reachable s hs
  rw [← h.ahead, hentries, hrows]
  rfl

/-- What the arithmetic of a turn relies on: the pushed cells keep a row and
stand in the table, and a cell that is cut was pushed in an earlier row, so that
it keeps a row as well. -/
structure LayoutRun.Safe (s : LayoutRun) : Prop where
  rowSpan_pos : ∀ cell ∈ s.layout.cells, 1 ≤ cell.rowSpan
  in_table : ∀ cell ∈ s.layout.cells, cell.col + cell.colSpan ≤ kMaxLatexColumns
  cut_row : ∀ i, s.layout.owner s.rowIndex s.col = some i → (s.layout.cell i).row < s.rowIndex
  cut_pos : ∀ i, s.layout.owner s.rowIndex s.col = some i →
    ∀ cell ∈ (s.layout.shorten i s.rowIndex).cells, 1 ≤ cell.rowSpan

theorem LayoutRun.Inv.safe {latex : Bytes} {s : LayoutRun} (h : LayoutRun.Inv latex s) :
    s.Safe where
  rowSpan_pos := fun cell hc => (h.layout.spans cell hc).1.rowSpan_pos
  in_table := fun cell hc => (h.layout.spans cell hc).2
  cut_row := fun i howner => by
    obtain ⟨cell, hcell, hrow, -⟩ := h.layout.owner_row howner
    rw [Layout.cell, List.getD_eq_getElem?_getD, hcell]
    exact hrow
  cut_pos := fun i howner cell hc => ((h.layout.shorten howner).spans cell hc).1.rowSpan_pos

/-- **Unwrapping ends and spans stay in range.** The loop over the commands of a
cell comes to a text without one, with spans from 1 to 1001; and wherever the
layout of a table is, no row number is taken from a smaller one. -/
theorem latexSpans_safe (latex : Bytes) :
    (∀ text : Bytes, (∃ r, unwraps r.2 = false ∧ ∀ n, text.length ≤ n → unwrapCell n {} text = r) ∧
      (1 ≤ (parseLatexCell text).rowSpan ∧ (parseLatexCell text).rowSpan ≤ 1001) ∧
      (1 ≤ (parseLatexCell text).colSpan ∧ (parseLatexCell text).colSpan ≤ 1001)) ∧
    ∀ s, (layoutSystem latex).Reachable s → s.Safe := by
  refine ⟨fun text => ⟨⟨unwrapCell text.length {} text, ?_, fun n hn => ?_⟩, ?_, ?_⟩,
    fun s hs => ?_⟩
  · exact unwrapCell_done text.length {} (Nat.le_refl _)
  · rw [show n = text.length + (n - text.length) by omega]
    exact unwrapCell_stable _ _ _ _ (unwrapCell_done text.length {} (Nat.le_refl _))
  · have h := parseLatexCell_bounded text
    exact ⟨h.rowSpan_pos, h.rowSpan_le⟩
  · exact ⟨(parseLatexCell_bounded text).colSpan_pos,
      unwrapCell_colSpan text.length text (by decide : (1 : Nat) ≤ kMaxLatexColumns + 1)⟩
  · exact ((layoutSystem_inductive latex).reachable s hs).safe

end VlmConvert.L2.Latex

import Mathlib.Data.Finset.Prod
import Mathlib.Data.Nat.Find
import Mathlib.Order.Interval.Finset.Nat

/-!
# Placing boxes row by row

Boxes come in rows. Each goes to the least column of its row that no earlier
box covers, from the end of its predecessor on, and a row may be stopped at a
box, which loses the rest of the row.

Results:
* `place_eq_free`: a placement that would stop nowhere is the free one.
* `place_apart`: corners come in row-major order, and no box covers another's.
* `place_complete`: nothing is lost exactly when the free placement has no box
  to stop at.
-/
namespace VlmConvert

/-- Something with a height and a width. -/
structure Box (α : Type) where
  height : Nat
  width : Nat
  value : α

/-- A box with its top left corner. -/
structure Placed (α : Type) where
  row : Nat
  col : Nat
  box : Box α

namespace Placement

variable {α : Type}

/-- The positions under a placed box. -/
def positions (p : Placed α) : Finset (Nat × Nat) :=
  Finset.Ico p.row (p.row + p.box.height) ×ˢ Finset.Ico p.col (p.col + p.box.width)

@[simp] theorem mem_positions {p : Placed α} {r c : Nat} : (r, c) ∈ positions p ↔
    (p.row ≤ r ∧ r < p.row + p.box.height) ∧ p.col ≤ c ∧ c < p.col + p.box.width := by
  simp [positions]

/-! ## The least free column -/

section Free
variable (covered : Finset (Nat × Nat)) (r start : Nat)

theorem exists_free : ∃ c, start ≤ c ∧ (r, c) ∉ covered := by
  obtain ⟨c, hc⟩ := Infinite.exists_notMem_finset ((covered.image Prod.snd) ∪ Finset.range start)
  simp only [Finset.mem_union, Finset.mem_image, Finset.mem_range, not_or, not_lt] at hc
  exact ⟨c, hc.2, fun h => hc.1 ⟨(r, c), h, rfl⟩⟩

def leastFree : Nat := Nat.find (exists_free covered r start)

theorem le_leastFree : start ≤ leastFree covered r start :=
  (Nat.find_spec (exists_free covered r start)).1

theorem leastFree_free : (r, leastFree covered r start) ∉ covered :=
  (Nat.find_spec (exists_free covered r start)).2

theorem covered_of_lt_leastFree {c : Nat} (h : start ≤ c) (hc : c < leastFree covered r start) :
    (r, c) ∈ covered := by
  by_contra hfree
  exact Nat.find_min (exists_free covered r start) hc ⟨h, hfree⟩

variable {covered r start}

theorem leastFree_eq {c : Nat} (h : start ≤ c) (hfree : (r, c) ∉ covered)
    (hleast : ∀ d, start ≤ d → d < c → (r, d) ∈ covered) : leastFree covered r start = c := by
  refine (Nat.find_eq_iff _).2 ⟨⟨h, hfree⟩, ?_⟩
  rintro d hd ⟨hle, hnot⟩
  exact hnot (hleast d hle hd)

end Free

/-! ## Rows -/

/-- The boxes of a row, up to the first that is stopped. -/
def placeRow (stop : Nat → Box α → Bool) (r : Nat) :
    List (Box α) → Finset (Nat × Nat) → Nat → List (Placed α) × Finset (Nat × Nat)
  | [], covered, _ => ([], covered)
  | box :: boxes, covered, start =>
    let col := leastFree covered r start
    if stop col box then ([], covered)
    else
      let p : Placed α := ⟨r, col, box⟩
      let next := placeRow stop r boxes (covered ∪ positions p) (col + box.width)
      (p :: next.1, next.2)

/-- All rows, from row `r` on. -/
def place (stop : Nat → Box α → Bool) :
    Nat → List (List (Box α)) → Finset (Nat × Nat) → List (Placed α)
  | _, [], _ => []
  | r, boxes :: rows, covered =>
    let next := placeRow stop r boxes covered 0
    next.1 ++ place stop (r + 1) rows next.2

/-- No box is stopped. -/
def free : Nat → Box α → Bool := fun _ _ => false

theorem placeRow_free_boxes (r : Nat) : ∀ (boxes : List (Box α)) (covered : Finset (Nat × Nat))
    (start : Nat), (placeRow free r boxes covered start).1.map Placed.box = boxes := by
  intro boxes
  induction boxes with
  | nil => intro covered start; rfl
  | cons box boxes ih =>
    intro covered start
    simp only [placeRow, free, Bool.false_eq_true, if_false, List.map_cons, List.cons.injEq,
      true_and]
    exact ih _ _

theorem place_free_boxes : ∀ (rows : List (List (Box α))) (r : Nat) (covered : Finset (Nat × Nat)),
    (place free r rows covered).map Placed.box = rows.flatten := by
  intro rows
  induction rows with
  | nil => intro r covered; rfl
  | cons boxes rows ih =>
    intro r covered
    simp only [place, List.map_append, placeRow_free_boxes, ih, List.flatten_cons]

section Stop
variable (stop : Nat → Box α → Bool)

theorem placeRow_eq_free (r : Nat) :
    ∀ (boxes : List (Box α)) (covered : Finset (Nat × Nat)) (start : Nat),
    (∀ p ∈ (placeRow free r boxes covered start).1, stop p.col p.box = false) →
    placeRow stop r boxes covered start = placeRow free r boxes covered start := by
  intro boxes
  induction boxes with
  | nil => intro covered start _; rfl
  | cons box boxes ih =>
    intro covered start h
    simp only [placeRow, free, Bool.false_eq_true, if_false, List.mem_cons, forall_eq_or_imp] at h
    have hrest := ih _ _ h.2
    simp only [placeRow, free, Bool.false_eq_true, if_false, h.1, hrest]

/-- **No stop, no loss.** -/
theorem place_eq_free : ∀ (rows : List (List (Box α))) (r : Nat) (covered : Finset (Nat × Nat)),
    (∀ p ∈ place free r rows covered, stop p.col p.box = false) →
    place stop r rows covered = place free r rows covered := by
  intro rows
  induction rows with
  | nil => intro r covered _; rfl
  | cons boxes rows ih =>
    intro r covered h
    simp only [place, List.mem_append] at h
    have hrow := placeRow_eq_free stop r boxes covered 0 fun p hp => h p (.inl hp)
    simp only [place, hrow]
    rw [ih (r + 1) _ fun p hp => h p (.inr hp)]

/-- What a row places comes first in it. -/
theorem placeRow_boxes_le (r : Nat) :
    ∀ (boxes : List (Box α)) (covered : Finset (Nat × Nat)) (start : Nat),
    (placeRow stop r boxes covered start).1.map Placed.box <+: boxes := by
  intro boxes
  induction boxes with
  | nil => intro covered start; exact List.prefix_rfl
  | cons box boxes ih =>
    intro covered start
    simp only [placeRow]
    split
    · exact List.nil_prefix
    · exact (List.prefix_cons_inj box).2 (ih _ _)

/-- Only given boxes are placed. -/
theorem mem_place :
    ∀ {rows : List (List (Box α))} {r : Nat} {covered : Finset (Nat × Nat)} {p : Placed α},
    p ∈ place stop r rows covered → p.box ∈ rows.flatten := by
  intro rows
  induction rows with
  | nil => intro r covered p h; cases h
  | cons boxes rows ih =>
    intro r covered p h
    rw [List.flatten_cons, List.mem_append]
    rcases List.mem_append.1 h with h | h
    · exact .inl ((placeRow_boxes_le stop r boxes covered 0).subset (List.mem_map_of_mem h))
    · exact .inr (ih h)

theorem mem_placeRow {r : Nat} :
    ∀ {boxes : List (Box α)} {covered : Finset (Nat × Nat)} {start : Nat}
    {p : Placed α}, p ∈ (placeRow stop r boxes covered start).1 → p.row = r ∧
      stop p.col p.box = false := by
  intro boxes
  induction boxes with
  | nil => intro covered start p h; cases h
  | cons box boxes ih =>
    intro covered start p h
    simp only [placeRow] at h
    split at h
    · cases h
    · rename_i hstop
      rcases List.mem_cons.1 h with rfl | h
      · exact ⟨rfl, by simpa using hstop⟩
      · exact ih h

/-- A placed box is in one of the rows, and was not stopped. -/
theorem mem_place_row : ∀ {rows : List (List (Box α))} {r : Nat} {covered : Finset (Nat × Nat)}
    {p : Placed α}, p ∈ place stop r rows covered →
    (r ≤ p.row ∧ p.row < r + rows.length) ∧ stop p.col p.box = false := by
  intro rows
  induction rows with
  | nil => intro r covered p h; cases h
  | cons boxes rows ih =>
    intro r covered p h
    rw [List.length_cons]
    rcases List.mem_append.1 h with h | h
    · obtain ⟨hrow, hstop⟩ := mem_placeRow stop h
      exact ⟨by omega, hstop⟩
    · obtain ⟨hrow, hstop⟩ := ih h
      exact ⟨by omega, hstop⟩

/-- A row that loses nothing meets no box to stop at. -/
theorem placeRow_complete (r : Nat) :
    ∀ (boxes : List (Box α)) (covered : Finset (Nat × Nat)) (start : Nat),
    (placeRow stop r boxes covered start).1.map Placed.box = boxes →
    placeRow stop r boxes covered start = placeRow free r boxes covered start ∧
      ∀ p ∈ (placeRow free r boxes covered start).1, stop p.col p.box = false := by
  intro boxes
  induction boxes with
  | nil => intro covered start _; exact ⟨rfl, by simp [placeRow]⟩
  | cons box boxes ih =>
    intro covered start h
    simp only [placeRow] at h
    split at h
    · cases h
    · rename_i hstop
      simp only [List.map_cons, List.cons.injEq, true_and] at h
      obtain ⟨heq, hall⟩ := ih _ _ h
      rw [Bool.not_eq_true] at hstop
      simp only [placeRow, free, hstop, if_false, Bool.false_eq_true, heq, List.mem_cons,
        forall_eq_or_imp, true_and]
      exact hall

theorem place_boxes_length :
    ∀ (rows : List (List (Box α))) (r : Nat) (covered : Finset (Nat × Nat)),
    (place stop r rows covered).length ≤ rows.flatten.length := by
  intro rows
  induction rows with
  | nil => intro r covered; exact Nat.le_refl 0
  | cons boxes rows ih =>
    intro r covered
    have hrow := (placeRow_boxes_le stop r boxes covered 0).length_le
    have hrest := ih (r + 1) (placeRow stop r boxes covered 0).2
    simp only [place, List.length_append, List.flatten_cons, List.length_map] at hrow hrest ⊢
    omega

/-- **Nothing is lost** exactly when the free placement has no box to stop at. -/
theorem place_complete : ∀ (rows : List (List (Box α))) (r : Nat) (covered : Finset (Nat × Nat)),
    (place stop r rows covered).length = rows.flatten.length ↔
      ∀ p ∈ place free r rows covered, stop p.col p.box = false := by
  intro rows
  induction rows with
  | nil => intro r covered; simp [place]
  | cons boxes rows ih =>
    intro r covered
    constructor
    · intro h
      have hprefix := placeRow_boxes_le stop r boxes covered 0
      have hshort := hprefix.length_le
      have hrest := place_boxes_length stop rows (r + 1) (placeRow stop r boxes covered 0).2
      simp only [place, List.flatten_cons, List.length_append] at h
      have hrow : (placeRow stop r boxes covered 0).1.map Placed.box = boxes := by
        refine hprefix.eq_of_length ?_
        rw [List.length_map] at hshort ⊢
        omega
      obtain ⟨heq, hall⟩ := placeRow_complete stop r boxes covered 0 hrow
      have hlength : (place stop (r + 1) rows (placeRow stop r boxes covered 0).2).length =
          rows.flatten.length := by
        rw [List.length_map] at hshort
        omega
      rw [ih, heq] at hlength
      simp only [place, List.mem_append]
      rintro p (hp | hp)
      · exact hall p hp
      · exact hlength p hp
    · intro h
      rw [place_eq_free stop _ r covered h, ← place_free_boxes (boxes :: rows) r covered,
        List.length_map]

/-! ## Corners -/

/-- `q` comes behind `p`: in a later row, or in its row and right of it, and
at a corner that `p` does not cover. -/
def Apart (p q : Placed α) : Prop :=
  (p.row < q.row ∨ p.row = q.row ∧ p.col + p.box.width ≤ q.col) ∧ (q.row, q.col) ∉ positions p

theorem placeRow_mono (r : Nat) :
    ∀ (boxes : List (Box α)) (covered : Finset (Nat × Nat)) (start : Nat),
    covered ⊆ (placeRow stop r boxes covered start).2 ∧
      ∀ p ∈ (placeRow stop r boxes covered start).1, start ≤ p.col ∧ (p.row, p.col) ∉ covered ∧
        positions p ⊆ (placeRow stop r boxes covered start).2 := by
  intro boxes
  induction boxes with
  | nil => intro covered start; exact ⟨Finset.Subset.refl _, fun p hp => nomatch hp⟩
  | cons box boxes ih =>
    intro covered start
    simp only [placeRow]
    split
    · exact ⟨Finset.Subset.refl _, fun p hp => nomatch hp⟩
    · have hle := le_leastFree covered r start
      obtain ⟨hsub, hrest⟩ := ih (covered ∪ positions ⟨r, leastFree covered r start, box⟩)
        (leastFree covered r start + box.width)
      refine ⟨(Finset.subset_union_left).trans hsub, fun p hp => ?_⟩
      rcases List.mem_cons.1 hp with rfl | hp
      · exact ⟨hle, leastFree_free covered r start, (Finset.subset_union_right).trans hsub⟩
      · obtain ⟨hcol, hfree, hpos⟩ := hrest p hp
        exact ⟨by omega, fun h => hfree (Finset.mem_union_left _ h), hpos⟩

theorem placeRow_apart (r : Nat) :
    ∀ (boxes : List (Box α)) (covered : Finset (Nat × Nat)) (start : Nat),
    (placeRow stop r boxes covered start).1.Pairwise Apart := by
  intro boxes
  induction boxes with
  | nil => intro covered start; exact List.Pairwise.nil
  | cons box boxes ih =>
    intro covered start
    simp only [placeRow]
    split
    · exact List.Pairwise.nil
    · refine List.pairwise_cons.2 ⟨fun q hq => ?_, ih _ _⟩
      obtain ⟨hcol, hfree, -⟩ := (placeRow_mono stop r boxes _ _).2 q hq
      refine ⟨.inr ⟨(mem_placeRow stop hq).1.symm, hcol⟩, fun h => hfree ?_⟩
      exact Finset.mem_union_right _ h

/-- No corner of a placement was covered before. -/
theorem place_free_corner : ∀ {rows : List (List (Box α))} {r : Nat} {covered : Finset (Nat × Nat)}
    {p : Placed α}, p ∈ place stop r rows covered → (p.row, p.col) ∉ covered := by
  intro rows
  induction rows with
  | nil => intro r covered p h; cases h
  | cons boxes rows ih =>
    intro r covered p h
    obtain ⟨hsub, hrow⟩ := placeRow_mono stop r boxes covered 0
    rcases List.mem_append.1 h with h | h
    · exact (hrow p h).2.1
    · exact fun hcov => ih h (hsub hcov)

/-- **Corners stay apart**: in row-major order, none under an earlier box. -/
theorem place_apart : ∀ (rows : List (List (Box α))) (r : Nat) (covered : Finset (Nat × Nat)),
    (place stop r rows covered).Pairwise Apart := by
  intro rows
  induction rows with
  | nil => intro r covered; exact List.Pairwise.nil
  | cons boxes rows ih =>
    intro r covered
    refine List.pairwise_append.2 ⟨placeRow_apart stop r boxes covered 0, ih _ _,
      fun p hp q hq => ?_⟩
    obtain ⟨-, -, hpos⟩ := (placeRow_mono stop r boxes covered 0).2 p hp
    have hrow := (mem_placeRow stop hp).1
    have hrow' := (mem_place_row stop hq).1.1
    exact ⟨.inl (by omega), fun h => place_free_corner stop hq (hpos h)⟩

/-- A placed box is one of its row's. -/
theorem mem_place_boxes : ∀ {rows : List (List (Box α))} {r : Nat} {covered : Finset (Nat × Nat)}
    {p : Placed α}, p ∈ place stop r rows covered →
    ∃ boxes, rows[p.row - r]? = some boxes ∧ p.box ∈ boxes := by
  intro rows
  induction rows with
  | nil => intro r covered p h; cases h
  | cons boxes rows ih =>
    intro r covered p h
    rcases List.mem_append.1 h with h | h
    · have hrow := (mem_placeRow stop h).1
      refine ⟨boxes, by simp [hrow], ?_⟩
      exact (placeRow_boxes_le stop r boxes covered 0).subset (List.mem_map_of_mem h)
    · obtain ⟨hrow, -⟩ := mem_place_row stop h
      obtain ⟨boxes', hget, hmem⟩ := ih h
      refine ⟨boxes', ?_, hmem⟩
      have hpos : p.row - r = (p.row - (r + 1)) + 1 := by omega
      rw [hpos, List.getElem?_cons_succ]
      exact hget

end Stop

/-! ## Given columns -/

/-- The column and the width of a placed box. -/
def extent (p : Placed α) : Nat × Nat := (p.col, p.box.width)

/-- Columns and widths from left to right, from `start` on. -/
def Ordered : Nat → List (Nat × Nat) → Prop
  | _, [] => True
  | start, (col, width) :: cells => start ≤ col ∧ Ordered (col + width) cells

/-- Columns where a placement puts boxes of these widths: the corners are free,
and what lies between two boxes is covered. -/
def Fits (covered : Nat → Prop) : Nat → List (Nat × Nat) → Prop
  | _, [] => True
  | start, (col, width) :: cells =>
    ¬ covered col ∧ (∀ d, start ≤ d → d < col → covered d) ∧ Fits covered (col + width) cells

/-- Only the columns from `start` on count. -/
theorem fits_congr {covered covered' : Nat → Prop} : ∀ {cells : List (Nat × Nat)} {start : Nat},
    Ordered start cells → (∀ d, start ≤ d → (covered d ↔ covered' d)) →
    (Fits covered start cells ↔ Fits covered' start cells) := by
  intro cells
  induction cells with
  | nil => intro start _ _; exact Iff.rfl
  | cons cell cells ih =>
    obtain ⟨col, width⟩ := cell
    rintro start ⟨hle, hrest⟩ h
    have htail := ih hrest fun d hd => h d (by omega)
    have hgap : (∀ d, start ≤ d → d < col → covered d) ↔ ∀ d, start ≤ d → d < col → covered' d :=
      forall_congr' fun d => forall_congr' fun hd => imp_congr_right fun _ => h d hd
    show (¬ covered col ∧ _ ∧ _) ↔ (¬ covered' col ∧ _ ∧ _)
    rw [h col hle, hgap, htail]

/-- The positions under some boxes, and those covered before. -/
def cover (covered : Finset (Nat × Nat)) (ps : List (Placed α)) : Finset (Nat × Nat) :=
  ps.foldl (fun covered p => covered ∪ positions p) covered

theorem mem_cover {x : Nat × Nat} : ∀ {ps : List (Placed α)} {covered : Finset (Nat × Nat)},
    x ∈ cover covered ps ↔ x ∈ covered ∨ ∃ p ∈ ps, x ∈ positions p := by
  intro ps
  induction ps with
  | nil => intro covered; simp [cover]
  | cons p ps ih =>
    intro covered
    show x ∈ cover (covered ∪ positions p) ps ↔ _
    rw [ih, Finset.mem_union, or_assoc]
    simp

section Given
variable (stop : Nat → Box α → Bool)

/-- **A row keeps given columns** exactly when they fit what is covered. -/
theorem placeRow_eq_iff {r : Nat} :
    ∀ {ps : List (Placed α)} {covered : Finset (Nat × Nat)} {start : Nat},
    (∀ p ∈ ps, p.row = r ∧ stop p.col p.box = false) → Ordered start (ps.map extent) →
    ((placeRow stop r (ps.map Placed.box) covered start).1 = ps ↔
      Fits (fun c => (r, c) ∈ covered) start (ps.map extent)) := by
  intro ps
  induction ps with
  | nil => intro covered start _ _; exact ⟨fun _ => trivial, fun _ => rfl⟩
  | cons p ps ih =>
    rintro covered start hall ⟨hle, hrest⟩
    obtain ⟨⟨hrow, hstop⟩, hps⟩ := List.forall_mem_cons.1 hall
    have hsame : ∀ d, p.col + p.box.width ≤ d →
      ((r, d) ∈ covered ∪ positions p ↔ (r, d) ∈ covered) := by
      intro d hd
      rw [Finset.mem_union, mem_positions]
      refine or_iff_left ?_
      omega
    have htail :
      (placeRow stop r (ps.map Placed.box) (covered ∪ positions p) (p.col + p.box.width)).1 = ps ↔
        Fits (fun c => (r, c) ∈ covered) (p.col + p.box.width) (ps.map extent) :=
      (ih hps hrest).trans (fits_congr hrest hsame)
    have hp : p = ⟨r, p.col, p.box⟩ := by rw [← hrow]
    constructor
    · intro h
      simp only [List.map_cons, placeRow] at h
      split at h
      · cases h
      · obtain ⟨hhead, hnext⟩ := List.cons.inj h
        have hcol : leastFree covered r start = p.col := congrArg Placed.col hhead
        rw [hhead, hcol] at hnext
        refine ⟨?_, fun d h1 h2 => ?_, htail.1 hnext⟩
        · rw [← hcol]
          exact leastFree_free covered r start
        · exact covered_of_lt_leastFree covered r start h1 (by rw [hcol]; exact h2)
    · rintro ⟨hfree, hgap, hfits⟩
      have hcol : leastFree covered r start = p.col := leastFree_eq hle hfree hgap
      simp only [List.map_cons, placeRow, hcol, hstop, Bool.false_eq_true, if_false]
      rw [← hp, htail.2 hfits]

/-- Then it covers their positions. -/
theorem placeRow_covers (r : Nat) :
    ∀ (boxes : List (Box α)) (covered : Finset (Nat × Nat)) (start : Nat),
    (placeRow stop r boxes covered start).2 =
      cover covered (placeRow stop r boxes covered start).1 := by
  intro boxes
  induction boxes with
  | nil => intro covered start; rfl
  | cons box boxes ih =>
    intro covered start
    simp only [placeRow]
    split
    · rfl
    · exact ih _ _

theorem place_eq_iff : ∀ {rows : List (List (Placed α))} {r : Nat} {covered : Finset (Nat × Nat)},
    (∀ i ps, rows[i]? = some ps → (∀ p ∈ ps, p.row = r + i ∧ stop p.col p.box = false) ∧
      Ordered 0 (ps.map extent)) →
    (place stop r (rows.map fun ps => ps.map Placed.box) covered = rows.flatten ↔
      ∀ i ps, rows[i]? = some ps →
        Fits (fun c => (r + i, c) ∈ cover covered (rows.take i).flatten) 0 (ps.map extent)) := by
  intro rows
  induction rows with
  | nil => intro r covered _; simp [place]
  | cons ps rows ih =>
    intro r covered h
    obtain ⟨hall, hordered⟩ := h 0 ps rfl
    have hrow : (placeRow stop r (ps.map Placed.box) covered 0).1 = ps ↔
        Fits (fun c => (r, c) ∈ covered) 0 (ps.map extent) := placeRow_eq_iff stop hall hordered
    have hrows := @ih (r + 1) (cover covered ps) fun i qs hi => by
      obtain ⟨hqs, hord⟩ := h (i + 1) qs hi
      exact ⟨fun p hp => ⟨by rw [(hqs p hp).1]; omega, (hqs p hp).2⟩, hord⟩
    have hsplit : (∀ i qs, (ps :: rows)[i]? = some qs →
          Fits (fun c => (r + i, c) ∈ cover covered ((ps :: rows).take i).flatten) 0
            (qs.map extent)) ↔
        Fits (fun c => (r, c) ∈ covered) 0 (ps.map extent) ∧ ∀ i qs, rows[i]? = some qs →
          Fits (fun c => (r + 1 + i, c) ∈ cover (cover covered ps) (rows.take i).flatten) 0
            (qs.map extent) := by
      have hcover : ∀ i, cover covered ((ps :: rows).take (i + 1)).flatten =
          cover (cover covered ps) (rows.take i).flatten := by
        intro i
        simp [cover, List.foldl_append]
      constructor
      · intro hfits
        refine ⟨hfits 0 ps rfl, fun i qs hi => ?_⟩
        have := hfits (i + 1) qs hi
        rwa [hcover, show r + (i + 1) = r + 1 + i by omega] at this
      · rintro ⟨hfirst, hfits⟩ i qs hi
        cases i with
        | zero =>
          cases hi
          exact hfirst
        | succ i =>
          have := hfits i qs hi
          rwa [hcover, show r + (i + 1) = r + 1 + i by omega]
    rw [hsplit, ← hrow, ← hrows]
    simp only [List.map_cons, place, List.flatten_cons]
    constructor
    · intro heq
      have hlen := congrArg List.length heq
      have h1 := (placeRow_boxes_le stop r (ps.map Placed.box) covered 0).length_le
      have h2 := place_boxes_length stop (rows.map fun ps => ps.map Placed.box) (r + 1)
        (placeRow stop r (ps.map Placed.box) covered 0).2
      have h3 : (rows.map fun ps => ps.map Placed.box).flatten.length = rows.flatten.length := by
        rw [← List.map_flatten, List.length_map]
      simp only [List.length_append, List.length_map] at hlen h1 h2
      obtain ⟨hfirst, hrest⟩ := List.append_inj heq (by omega)
      rw [placeRow_covers, hfirst] at hrest
      exact ⟨hfirst, hrest⟩
    · rintro ⟨hfirst, hrest⟩
      rw [placeRow_covers, hfirst, hrest]

/-- Where a box was placed. -/
def corner (p : Placed α) : Nat × Nat := (p.row, p.col)

theorem eq_of_corners : ∀ {ps qs : List (Placed α)}, ps.map corner = qs.map corner →
    ps.map Placed.box = qs.map Placed.box → ps = qs := by
  intro ps
  induction ps with
  | nil =>
    intro qs h _
    exact (List.map_eq_nil_iff.1 h.symm).symm
  | cons p ps ih =>
    intro qs hcorner hbox
    cases qs with
    | nil => cases hcorner
    | cons q qs =>
      obtain ⟨hc, hcs⟩ := List.cons.inj hcorner
      obtain ⟨hb, hbs⟩ := List.cons.inj hbox
      obtain ⟨hrow, hcol⟩ := Prod.mk.inj hc
      have hp : p = q := by
        obtain ⟨row, col, box⟩ := p
        obtain ⟨row', col', box'⟩ := q
        subst hrow hcol hb
        rfl
      rw [hp, ih hcs hbs]

/-- Boxes at given corners are the given boxes. -/
theorem place_corners_iff {rows : List (List (Placed α))} {r : Nat} {covered : Finset (Nat × Nat)} :
    (place stop r (rows.map fun ps => ps.map Placed.box) covered).map corner =
      rows.flatten.map corner ↔
      place stop r (rows.map fun ps => ps.map Placed.box) covered = rows.flatten := by
  constructor
  · intro h
    refine eq_of_corners h ?_
    have hflat : (rows.map fun ps => ps.map Placed.box).flatten = rows.flatten.map Placed.box :=
      List.map_flatten.symm
    have hlen := congrArg List.length h
    rw [List.length_map, List.length_map] at hlen
    have hfree := (place_complete stop (rows.map fun ps => ps.map Placed.box) r covered).1
      (by rw [hlen, hflat, List.length_map])
    rw [place_eq_free stop _ r covered hfree, place_free_boxes, hflat]
  · intro h
    rw [h]

end Given

/-! ## Extent -/

/-- The furthest row and column end. -/
def bottom (placed : List (Placed α)) : Nat :=
  (placed.map fun p => p.row + p.box.height).foldl max 0

def right (placed : List (Placed α)) : Nat := (placed.map fun p => p.col + p.box.width).foldl max 0

end Placement

end VlmConvert

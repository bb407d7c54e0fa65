import VlmConvert.L1Text.EmphasisFloor

/-!
# Emphasis around words

The runs of a paragraph in which every span is closed by a run of its opener's
character and length (`Spanned`). On such a paragraph the emphasis loop of
`render_paragraph` (`src/mapping/markdown_inline.cpp`) pairs each closer with
its own opener and leaves every other run alone.

A run that could close as well may open a span only where no span is open: it
finds no opener there, and the floor it records is 0.

Result: `processEmphasis_spans`, the pieces the loop leaves.
-/
namespace VlmConvert.L1

open Bytes

/-! ## Spans -/

/-- What a delimiter run is for. -/
inductive MarkRole
  | loose | opens | closes
  deriving DecidableEq, Repr

/-- A piece of a paragraph: text, or a delimiter run. -/
inductive Span
  | text (html : Bytes)
  | run (role : MarkRole) (p : Piece)
  deriving DecidableEq, Repr

def Span.piece : Span → Piece
  | .text html => { html := html }
  | .run _ p => p

/-- The tags of an opening run: `strong` for every two delimiters, and a last
`em` outside them. -/
def openRun : Nat → Bytes
  | 0 => []
  | 1 => openTagOf 1
  | n + 2 => openRun n ++ openTagOf 2

def closeRun : Nat → Bytes
  | 0 => []
  | 1 => closeTagOf 1
  | n + 2 => closeTagOf 2 ++ closeRun n

/-- A piece once its span is closed. -/
def Span.settled : Span → Piece
  | .run .opens p => { p with count := 0, openTags := openRun p.count }
  | .run .closes p => { p with count := 0, closeTags := closeRun p.count }
  | span => span.piece

/-- A delimiter run as the tokens have it. -/
structure Piece.IsRun (p : Piece) : Prop where
  delim : p.delim = true
  whole : p.orig = p.count
  nonempty : p.count ≠ 0
  no_open : p.openTags = []
  no_close : p.closeTags = []

/-- Every span is closed by a run like its opener; `open_` are the openers of
the spans that are open, innermost first. -/
def Spanned : List Piece → List Span → Prop
  | open_, [] => open_ = []
  | open_, .text _ :: spans => Spanned open_ spans
  | open_, .run .loose p :: spans =>
    p.IsRun ∧ p.canOpen = false ∧ p.canClose = false ∧ Spanned open_ spans
  | open_, .run .opens p :: spans =>
    p.IsRun ∧ p.canOpen = true ∧ (p.canClose = true → open_ = []) ∧ Spanned (p :: open_) spans
  | [], .run .closes _ :: _ => False
  | o :: open_, .run .closes p :: spans =>
    p.IsRun ∧ p.canClose = true ∧ p.ch = o.ch ∧ p.count = o.count ∧ Spanned open_ spans

/-! ## A closer and its opener -/

def Piece.opened (n : Nat) (p : Piece) : Piece :=
  { p with openTags := openRun n ++ p.openTags, count := p.count - n }

def Piece.closed (n : Nat) (p : Piece) : Piece :=
  { p with closeTags := p.closeTags ++ closeRun n, count := p.count - n }

theorem opened_opened (n : Nat) (p : Piece) : (p.opened 2).opened n = p.opened (n + 2) := by
  simp [Piece.opened, openRun, Nat.sub_sub, Nat.add_comm]

theorem closed_closed (n : Nat) (p : Piece) : (p.closed 2).closed n = p.closed (n + 2) := by
  simp [Piece.closed, closeRun, Nat.sub_sub, Nat.add_comm]

/-- Two runs of one length never fall under the rule of three. -/
theorem opens_run {o c : Piece} (hch : o.ch = c.ch) (hopen : o.canOpen = true)
    (hcount : o.count ≠ 0)
    (horig : o.orig = c.orig) : opens o c = true := by
  simp only [opens, hch, hopen, horig, beq_self_eq_true, Bool.true_and, Bool.and_self,
    Bool.and_eq_true, bne_iff_ne, ne_eq, hcount, not_false_eq_true, true_and, Bool.not_eq_true',
    Bool.and_eq_false_iff, beq_eq_false_iff_ne, Bool.not_eq_false', beq_iff_eq]
  omega

section Close
variable {s u : Nat} {below : List Nat}

/-- The pieces of a closer `u` and its opener `s` when `n` delimiters of each
are used. -/
def pairedPieces (s u n : Nat) (ps : List Piece) : List Piece :=
  (ps.modify s (Piece.opened n)).modify u (Piece.closed n)

theorem pairedPieces_add (hne : s ≠ u) (n : Nat) (ps : List Piece) :
    pairedPieces s u n (pairedPieces s u 2 ps) = pairedPieces s u (n + 2) ps := by
  apply List.ext_getElem?
  intro i
  simp only [pairedPieces, List.getElem?_modify]
  cases ps[i]? with
  | none => rfl
  | some p =>
    by_cases hs : s = i
    · subst hs
      simp [Ne.symm hne, opened_opened]
    · by_cases hu : u = i
      · subst hu
        simp [hs, closed_closed]
      · simp [hs, hu]

theorem getD_paired (hlt : s < u) (n : Nat) {ps : List Piece} (hu : u < ps.length) (t : Nat) :
    (pairedPieces s u n ps).getD t {} =
      if u = t then (ps.getD u {}).closed n
      else if s = t then (ps.getD s {}).opened n
      else ps.getD t {} := by
  rw [pairedPieces, piece_modify _ _ u t (by rw [List.length_modify]; exact hu),
    piece_modify _ _ s t (Nat.lt_trans hlt hu)]
  by_cases hut : u = t
  · subst hut
    rw [if_pos rfl, if_pos rfl, if_neg (Nat.ne_of_lt hlt)]
  · rw [if_neg hut, if_neg hut]
    by_cases hst : s = t
    · subst hst
      rfl
    · rw [if_neg hst, if_neg hst]

theorem pair_eq (e : Emphasis) {n : Nat} (ho : (e.piece s).count = n) (hc : (e.piece u).count = n)
    (hn : n ≠ 0) : e.pair s u below =
      { e with
        pieces := pairedPieces s u (min n 2) e.pieces
        stack := if n ≤ 2 then below else s :: below } := by
  have hused : (if (e.piece s).count ≥ 2 && (e.piece u).count ≥ 2 then 2 else 1) = min n 2 := by
    rw [ho, hc]
    by_cases h : n ≥ 2
    · simp [h]
    · rw [show n = 1 by omega]
      rfl
  have hfinished : ((e.piece s).count = min n 2) ↔ n ≤ 2 := by
    rw [ho]
    omega
  have htags : openRun (min n 2) = openTagOf (min n 2) ∧
    closeRun (min n 2) = closeTagOf (min n 2) := by
    rcases Nat.lt_or_ge n 2 with h | h
    · rw [show n = 1 by omega]
      exact ⟨rfl, rfl⟩
    · rw [Nat.min_eq_right h]
      exact ⟨List.nil_append _, List.append_nil _⟩
  have hopened : Piece.opened (min n 2) = fun p =>
      { p with openTags := openTagOf (min n 2) ++ p.openTags, count := p.count - min n 2 } := by
    funext p
    rw [Piece.opened, htags.1]
  have hclosed : Piece.closed (min n 2) = fun p =>
      { p with closeTags := p.closeTags ++ closeTagOf (min n 2), count := p.count - min n 2 } := by
    funext p
    rw [Piece.closed, htags.2]
  unfold Emphasis.pair
  dsimp only
  rw [hused, pairedPieces, hopened, hclosed]
  simp only [hfinished]

/-- The nearest opener takes all delimiters of a closer of its length. -/
theorem close_run (hlt : s < u) : ∀ (n fuel : Nat) (e : Emphasis), n ≤ fuel → n ≠ 0 →
    u < e.pieces.length → e.stack = s :: below →
    (e.piece s).count = n → (e.piece u).count = n → (e.piece s).ch = (e.piece u).ch →
    (e.piece s).canOpen = true → (e.piece s).orig = (e.piece u).orig →
    Emphasis.close 0 u fuel e =
      ({ e with pieces := pairedPieces s u n e.pieces, stack := below }, true) := by
  intro n
  induction n using Nat.strong_induction_on with
  | _ n ih =>
    intro fuel e hfuel hn hu hstack ho hc hch hopen horig
    obtain ⟨fuel, rfl⟩ : ∃ k, fuel = k + 1 := ⟨fuel - 1, by omega⟩
    have hopens := opens_run hch hopen (ho ▸ hn) horig
    have hfind : e.findOpener (e.piece u) 0 e.stack = some (s, below) := by
      rw [hstack, Emphasis.findOpener, if_neg (by omega), if_pos hopens]
    rw [Emphasis.close, if_neg (hc ▸ hn), hfind]
    dsimp only
    rw [pair_eq e ho hc hn]
    by_cases htwo : n ≤ 2
    · rw [if_pos htwo, Nat.min_eq_left htwo]
      -- the closer is used up
      have hzero : ∀ k (e' : Emphasis), (e'.piece u).count = 0 →
        Emphasis.close 0 u k e' = (e', false) := by
        intro k e' h0
        cases k with
        | zero => rfl
        | succ k => rw [Emphasis.close, if_pos h0]
      rw [hzero]
      show ((pairedPieces s u n e.pieces).getD u {}).count = 0
      rw [getD_paired hlt n hu, if_pos rfl]
      show (e.piece u).count - n = 0
      omega
    · rw [if_neg htwo, Nat.min_eq_right (by omega)]
      have hs : (pairedPieces s u 2 e.pieces).getD s {} = (e.piece s).opened 2 := by
        rw [getD_paired hlt 2 hu, if_neg (by omega), if_pos rfl]
        rfl
      have hu' : (pairedPieces s u 2 e.pieces).getD u {} = (e.piece u).closed 2 := by
        rw [getD_paired hlt 2 hu, if_pos rfl]
        rfl
      have hlen : (pairedPieces s u 2 e.pieces).length = e.pieces.length := by simp [pairedPieces]
      rw [ih (n - 2) (by omega) fuel _ (by omega) (by omega) (by rw [hlen]; exact hu) rfl]
      · simp only [Prod.mk.injEq, Emphasis.mk.injEq, and_true]
        rw [pairedPieces_add (by omega), Nat.sub_add_cancel (by omega)]
      · show ((pairedPieces s u 2 e.pieces).getD s {}).count = n - 2
        rw [hs, Piece.opened, ho]
      · show ((pairedPieces s u 2 e.pieces).getD u {}).count = n - 2
        rw [hu', Piece.closed, hc]
      · show ((pairedPieces s u 2 e.pieces).getD s {}).ch =
          ((pairedPieces s u 2 e.pieces).getD u {}).ch
        rw [hs, hu']
        exact hch
      · show ((pairedPieces s u 2 e.pieces).getD s {}).canOpen = true
        rw [hs]
        exact hopen
      · show ((pairedPieces s u 2 e.pieces).getD s {}).orig =
          ((pairedPieces s u 2 e.pieces).getD u {}).orig
        rw [hs, hu']
        exact horig

end Close

/-! ## The loop -/

/-- The loop at piece `u`: what is behind it is settled, up to the openers of
the spans that are open. -/
structure SpanInv (spans : List Span) (open_ : List Piece) (u : Nat) (e : Emphasis) : Prop where
  pieces_eq : e.pieces = spans.mapIdx fun i span =>
    if i < u ∧ i ∉ e.stack then span.settled else span.piece
  stack_eq : e.stack.map (fun i => spans[i]?) = open_.map fun p => some (.run .opens p)
  sorted : e.stack.Pairwise (· > ·)
  before : ∀ s ∈ e.stack, s < u
  openers : ∀ p ∈ open_, p.IsRun ∧ p.canOpen = true
  floor : ∀ kind, (e.bottom.lookup kind).getD 0 = 0

section Loop
variable {spans : List Span} {open_ : List Piece} {u : Nat} {e : Emphasis}

theorem SpanInv.piece (h : SpanInv spans open_ u e) {i : Nat} {span : Span}
    (hi : spans[i]? = some span)
    (hout : u ≤ i ∨ i ∈ e.stack) : e.piece i = span.piece := by
  rw [Emphasis.piece, h.pieces_eq, List.getD_eq_getElem?_getD, List.getElem?_mapIdx, hi]
  have hnot : ¬(i < u ∧ i ∉ e.stack) := by
    rintro ⟨hlt, hmem⟩
    rcases hout with hle | hin
    · omega
    · exact hmem hin
  simp [hnot]

/-- A piece that the loop leaves as it is. -/
theorem SpanInv.pass (h : SpanInv spans open_ u e) {span : Span} (hu : spans[u]? = some span)
    (hsettled : span.settled = span.piece) : SpanInv spans open_ (u + 1) e := by
  refine ⟨?_, h.stack_eq, h.sorted, fun s hs => Nat.lt_succ_of_lt (h.before s hs), h.openers,
    h.floor⟩
  rw [h.pieces_eq]
  apply List.ext_getElem?
  intro i
  rw [List.getElem?_mapIdx, List.getElem?_mapIdx]
  by_cases hi : i = u
  · subst hi
    rw [hu]
    simp [hsettled]
  · have hiff : i < u + 1 ∧ i ∉ e.stack ↔ i < u ∧ i ∉ e.stack := by
      constructor
      · rintro ⟨hlt, hmem⟩
        exact ⟨by omega, hmem⟩
      · rintro ⟨hlt, hmem⟩
        exact ⟨by omega, hmem⟩
    simp only [hiff]

/-- A run joins the stack. -/
theorem SpanInv.push (h : SpanInv spans open_ u e) {p : Piece}
    (hu : spans[u]? = some (.run .opens p))
    (hrun : p.IsRun) (hopen : p.canOpen = true) :
    SpanInv spans (p :: open_) (u + 1) { e with stack := u :: e.stack } := by
  have hsettled : ∀ i, (i < u + 1 ∧ i ∉ u :: e.stack) ↔ (i < u ∧ i ∉ e.stack) := by
    intro i
    rw [List.mem_cons, not_or]
    constructor
    · rintro ⟨hlt, hne, hmem⟩
      exact ⟨by omega, hmem⟩
    · rintro ⟨hlt, hmem⟩
      exact ⟨by omega, by omega, hmem⟩
  refine ⟨?_, ?_, List.Pairwise.cons (fun s hs => h.before s hs) h.sorted, ?_, ?_, h.floor⟩
  · simp only [hsettled]
    exact h.pieces_eq
  · show spans[u]? :: e.stack.map (fun i => spans[i]?) = _
    rw [hu, h.stack_eq]
    rfl
  · intro s hs
    rcases List.mem_cons.1 hs with rfl | hs
    · exact Nat.lt_succ_self s
    · exact Nat.lt_succ_of_lt (h.before s hs)
  · intro q hq
    rcases List.mem_cons.1 hq with rfl | hq
    · exact ⟨hrun, hopen⟩
    · exact h.openers q hq

theorem SpanInv.floorFor (h : SpanInv spans open_ u e) : e.floorFor u = 0 := h.floor _

/-- An opener: where it could close, no span is open. -/
theorem SpanInv.opens (h : SpanInv spans open_ u e) {p : Piece}
    (hu : spans[u]? = some (.run .opens p))
    (hrun : p.IsRun) (hopen : p.canOpen = true) (hclose : p.canClose = true → open_ = []) :
    SpanInv spans (p :: open_) (u + 1) (e.step u) := by
  have hpiece : e.piece u = p := h.piece hu (Or.inl (Nat.le_refl u))
  have hclosing : ∃ bottom, Emphasis.closing 0 e u = { e with bottom := bottom } ∧
      ∀ kind, (bottom.lookup kind).getD 0 = 0 := by
    unfold Emphasis.closing
    dsimp only
    rw [hpiece]
    by_cases hcan : p.canClose = true
    · have hstack : e.stack = [] := by
        have hlen := congrArg List.length h.stack_eq
        rw [hclose hcan] at hlen
        simpa using hlen
      have hnone : Emphasis.close 0 u p.count e = (e, false) := by
        cases hn : p.count with
        | zero => rfl
        | succ n =>
          rw [Emphasis.close, hpiece, if_neg hrun.nonempty, hstack]
          rfl
      rw [if_pos hcan, hnone]
      refine ⟨_, rfl, fun kind => ?_⟩
      rw [hstack, List.lookup_cons]
      split
      · rfl
      · exact h.floor kind
    · rw [if_neg hcan]
      exact ⟨e.bottom, rfl, h.floor⟩
  obtain ⟨bottom, hclosing, hfloor⟩ := hclosing
  have hbottom : SpanInv spans open_ u { e with bottom := bottom } :=
    ⟨h.pieces_eq, h.stack_eq, h.sorted, h.before, h.openers, hfloor⟩
  have hcount : (({ e with bottom := bottom } : Emphasis).piece u).count > 0 := by
    show (e.piece u).count > 0
    rw [hpiece]
    exact Nat.pos_of_ne_zero hrun.nonempty
  rw [step_eq, h.floorFor, Emphasis.stepDownTo]
  dsimp only
  rw [hpiece, hrun.delim, hclosing, hopen]
  simp only [Bool.not_true, Bool.false_eq_true, if_false, hcount, decide_true, Bool.and_self,
    if_true]
  exact hbottom.push hu hrun hopen

/-- A closer settles its opener and itself. -/
theorem SpanInv.closes {o : Piece} (h : SpanInv spans (o :: open_) u e) {p : Piece}
    (hu : spans[u]? = some (.run .closes p)) (hrun : p.IsRun) (hclose : p.canClose = true)
    (hch : p.ch = o.ch) (hcount : p.count = o.count) :
    SpanInv spans open_ (u + 1) (e.step u) := by
  obtain ⟨s, below, hstack, hs, hbelow⟩ : ∃ s below, e.stack = s :: below ∧
      spans[s]? = some (.run .opens o) ∧
      below.map (fun i => spans[i]?) = open_.map fun p => some (.run .opens p) := by
    cases hstack : e.stack with
    | nil =>
      have heq := h.stack_eq
      rw [hstack] at heq
      cases heq
    | cons s below =>
      have heq := h.stack_eq
      rw [hstack, List.map_cons, List.map_cons, List.cons.injEq] at heq
      exact ⟨s, below, rfl, heq.1, heq.2⟩
  have hlt : s < u := h.before s (by rw [hstack]; exact List.mem_cons_self)
  have hlen : u < e.pieces.length := by
    rw [h.pieces_eq, List.length_mapIdx]
    exact (List.getElem?_eq_some_iff.1 hu).1
  obtain ⟨horun, hoopen⟩ := h.openers o List.mem_cons_self
  have hps : e.piece s = o := h.piece hs (Or.inr (by rw [hstack]; exact List.mem_cons_self))
  have hpu : e.piece u = p := h.piece hu (Or.inl (Nat.le_refl u))
  have hnotin : s ∉ below ∧ ∀ t ∈ below, t < s := by
    have hsorted := h.sorted
    rw [hstack, List.pairwise_cons] at hsorted
    exact ⟨fun hmem => Nat.lt_irrefl s (hsorted.1 s hmem), hsorted.1⟩
  have hpairs : Emphasis.close 0 u p.count e =
      ({ e with pieces := pairedPieces s u p.count e.pieces, stack := below }, true) := by
    refine close_run hlt p.count p.count e (Nat.le_refl _) hrun.nonempty hlen hstack ?_ ?_ ?_ ?_ ?_
    · rw [hps, hcount]
    · rw [hpu]
    · rw [hps, hpu, hch]
    · rw [hps, hoopen]
    · rw [hps, hpu, horun.whole, hrun.whole, hcount]
  have hused : ((pairedPieces s u p.count e.pieces).getD u {}).count = 0 := by
    rw [getD_paired hlt _ hlen, if_pos rfl]
    show (e.piece u).count - p.count = 0
    rw [hpu, Nat.sub_self]
  have hstep : e.step u =
    { e with pieces := pairedPieces s u p.count e.pieces, stack := below } := by
    rw [step_eq, h.floorFor, Emphasis.stepDownTo, Emphasis.closing]
    dsimp only
    rw [hpu, hrun.delim, hclose, hpairs]
    simp only [Bool.not_true, Bool.false_eq_true, if_false, if_true, Emphasis.piece, hused]
    rfl
  rw [hstep]
  refine ⟨?_, hbelow, ?_, ?_, fun q hq => h.openers q (List.mem_cons_of_mem o hq), h.floor⟩
  · apply List.ext_getElem?
    intro i
    rw [pairedPieces, List.getElem?_modify, List.getElem?_modify, h.pieces_eq, List.getElem?_mapIdx,
      List.getElem?_mapIdx]
    rw [hstack]
    by_cases hiu : u = i
    · subst hiu
      have hout : u ∉ s :: below := by
        rw [List.mem_cons, not_or]
        exact ⟨by omega, fun hmem => by have := hnotin.2 u hmem; omega⟩
      have hout' : u ∉ below := fun hmem => hout (List.mem_cons_of_mem s hmem)
      simp [hu, show s ≠ u by omega, hout', Span.settled, Span.piece, Piece.closed, hrun.no_close]
    · by_cases his : s = i
      · subst his
        simp [hs, show u ≠ s by omega, hnotin.1, Nat.lt_succ_of_lt hlt, Span.settled, Span.piece,
          Piece.opened, horun.no_open, hcount]
      · have hiff : (i < u ∧ i ∉ s :: below) ↔ (i < u + 1 ∧ i ∉ below) := by
          rw [List.mem_cons, not_or]
          constructor
          · rintro ⟨hi, -, hmem⟩
            exact ⟨by omega, hmem⟩
          · rintro ⟨hi, hmem⟩
            exact ⟨by omega, Ne.symm his, hmem⟩
        simp only [hiff]
        simp [hiu, his]
  · have hsorted := h.sorted
    rw [hstack, List.pairwise_cons] at hsorted
    exact hsorted.2
  · intro t ht
    exact Nat.lt_succ_of_lt (h.before t (by rw [hstack]; exact List.mem_cons_of_mem s ht))

/-- From piece `u` to the end. -/
theorem SpanInv.run : ∀ {rest done : List Span} {open_ : List Piece} {e : Emphasis},
    Spanned open_ rest → SpanInv (done ++ rest) open_ done.length e →
    SpanInv (done ++ rest) [] (done ++ rest).length
      ((List.range' done.length rest.length).foldl Emphasis.step e) := by
  intro rest
  induction rest with
  | nil =>
    intro done open_ e hspanned h
    cases hspanned
    simpa using h
  | cons span rest ih =>
    intro done open_ e hspanned h
    have hu : (done ++ span :: rest)[done.length]? = some span := by simp
    have hnext : ∀ {open_' : List Piece}, Spanned open_' rest →
        SpanInv (done ++ span :: rest) open_' (done.length + 1) (e.step done.length) →
        SpanInv (done ++ span :: rest) [] (done ++ span :: rest).length
          ((List.range' done.length (span :: rest).length).foldl Emphasis.step e) := by
      intro open_' hrest hstep
      have happend : done ++ span :: rest = (done ++ [span]) ++ rest := by simp
      have hlength : done.length + 1 = (done ++ [span]).length := by simp
      rw [List.length_cons, List.range'_succ, List.foldl_cons, hlength, happend]
      rw [happend, hlength] at hstep
      exact ih hrest hstep
    have hpiece : e.piece done.length = span.piece := h.piece hu (Or.inl (Nat.le_refl _))
    match span, hspanned with
    | .text html, hrest =>
      have hstep : e.step done.length = e := by
        rw [step_eq, Emphasis.stepDownTo]
        simp only [hpiece, Span.piece]
        rfl
      refine hnext hrest ?_
      rw [hstep]
      exact h.pass hu rfl
    | .run .loose p, ⟨hrun, hopen, hclose, hrest⟩ =>
      have hstep : e.step done.length = e := by
        rw [step_eq, Emphasis.stepDownTo, Emphasis.closing]
        simp only [hpiece, Span.piece, hrun.delim, hopen, hclose]
        simp
      refine hnext hrest ?_
      rw [hstep]
      exact h.pass hu rfl
    | .run .opens p, ⟨hrun, hopen, hclose, hrest⟩ =>
      exact hnext hrest (h.opens hu hrun hopen hclose)
    | .run .closes p, hcloses =>
      match open_, hcloses with
      | o :: open_, ⟨hrun, hclose, hch, hcount, hrest⟩ =>
        exact hnext hrest (h.closes hu hrun hclose hch hcount)

/-- Each closer takes its own opener, and every other piece stays. -/
theorem processEmphasis_spans (h : Spanned [] spans) :
    processEmphasis (spans.map Span.piece) = spans.map Span.settled := by
  have hstart : SpanInv spans [] 0 { pieces := spans.map Span.piece } := by
    refine ⟨?_, rfl, List.Pairwise.nil, nofun, nofun, fun _ => rfl⟩
    apply List.ext_getElem?
    intro i
    simp
  have hrun := @SpanInv.run spans [] _ _ h hstart
  have hstack : ((List.range' 0 spans.length).foldl Emphasis.step
      { pieces := spans.map Span.piece }).stack = [] := by
    have hlen := congrArg List.length hrun.stack_eq
    simpa using hlen
  have hpieces := hrun.pieces_eq
  rw [List.nil_append, List.length_nil] at hpieces
  rw [processEmphasis, List.length_map, List.range_eq_range', hpieces, hstack]
  apply List.ext_getElem?
  intro i
  rw [List.getElem?_mapIdx, List.getElem?_map]
  cases hi : spans[i]? with
  | none => rfl
  | some span =>
    have hlt : i < spans.length := (List.getElem?_eq_some_iff.1 hi).1
    simp [hlt]

end Loop

end VlmConvert.L1

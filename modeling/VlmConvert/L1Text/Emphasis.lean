import VlmConvert.L1Text.MarkdownInline
import VlmConvert.Core.Nesting

/-!
# Emphasis pairs

What the emphasis loop of `render_paragraph` (`src/mapping/markdown_inline.cpp`)
generates. Every pair it makes has an opener run, a later closer run and a
number of delimiters taken from both; the tags and the delimiters left of a
run follow from the list of pairs alone (`Piece.marked`).

A new open tag goes in front of a run's open tags and a new close tag behind
its close tags, so each run has one place where both are inserted: behind its
close tags. `Layered` says that between the insertion places of neighbouring
stack entries the marks are nested; a pair wraps what stands behind its
opener.

Results:

* `EmphasisInv.step`, `EmphasisInv.run`: the invariant, one piece and all.
* `renderParagraph_nested`: the output.
-/
namespace VlmConvert.L1

open Bytes

/-! ## Pairs -/

/-- A generated pair: the runs, by the index of their pieces, and how many
delimiters it takes from each. -/
structure EmphasisPair where
  opener : Nat
  closer : Nat
  used : Nat
  deriving DecidableEq, Repr

/-- The open tags of a run, newest first. -/
def opensAt (pairs : List EmphasisPair) (i : Nat) : List EmphasisPair :=
  (pairs.filter fun m => m.opener == i).reverse

/-- The close tags of a run, newest last. -/
def closesAt (pairs : List EmphasisPair) (i : Nat) : List EmphasisPair :=
  pairs.filter fun m => m.closer == i

/-- The delimiters of a run that its tags consume. -/
def consumed (pairs : List EmphasisPair) (i : Nat) : Nat :=
  ((closesAt pairs i).map EmphasisPair.used).sum + ((opensAt pairs i).map EmphasisPair.used).sum

/-- A piece with the tags of its pairs. -/
def Piece.marked (pairs : List EmphasisPair) (i : Nat) (p : Piece) : Piece :=
  { p with
    count := p.count - consumed pairs i
    openTags := (opensAt pairs i).flatMap (fun m => openTagOf m.used) ++ p.openTags
    closeTags := p.closeTags ++ (closesAt pairs i).flatMap fun m => closeTagOf m.used }

/-- One delimiter for `em` and two for `strong`, of one character, from a run
and a later one. -/
structure EmphasisPair.Sound (ps : List Piece) (m : EmphasisPair) : Prop where
  later : m.opener < m.closer
  used_eq : m.used = 1 ∨ m.used = 2
  runs : ∃ o c, ps[m.opener]? = some o ∧ ps[m.closer]? = some c ∧ o.delim = true ∧
    c.delim = true ∧ o.ch = c.ch ∧ o.canOpen = true ∧ c.canClose = true

/-! ## Marks between insertion places -/

def marksAt (pairs : List EmphasisPair) (i : Nat) : List (Mark EmphasisPair) :=
  (closesAt pairs i).map .close ++ (opensAt pairs i).map .open_

/-- From the start of piece `lo` to the insertion place of piece `hi`. -/
def marksTo (pairs : List EmphasisPair) (lo hi : Nat) : List (Mark EmphasisPair) :=
  (List.range' lo (hi - lo)).flatMap (marksAt pairs) ++ (closesAt pairs hi).map .close

/-- From the insertion place of piece `s` to that of piece `hi`. -/
def marksBehind (pairs : List EmphasisPair) (s hi : Nat) : List (Mark EmphasisPair) :=
  (opensAt pairs s).map .open_ ++ marksTo pairs (s + 1) hi

/-- Between the insertion places of a stack, innermost first, and the current
one the marks are nested. -/
def Layered (pairs : List EmphasisPair) : List Nat → Nat → Prop
  | [], u => Nested (marksTo pairs 0 u)
  | s :: below, u => s < u ∧ Nested (marksBehind pairs s u) ∧ Layered pairs below s

section Places
variable {pairs : List EmphasisPair}

theorem marksTo_split {lo s u : Nat} (hlo : lo ≤ s) (hs : s < u) :
    marksTo pairs lo u = marksTo pairs lo s ++ marksBehind pairs s u := by
  have hrange : List.range' lo (u - lo) =
      List.range' lo (s - lo) ++ s :: List.range' (s + 1) (u - (s + 1)) := by
    have hsplit := List.range'_append_1 (s := lo) (m := s - lo) (n := u - s)
    rw [show lo + (s - lo) = s by omega, show s - lo + (u - s) = u - lo by omega] at hsplit
    rw [← hsplit, show u - s = (u - (s + 1)) + 1 by omega, List.range'_succ]
  rw [marksTo, hrange, List.flatMap_append, List.flatMap_cons]
  simp only [marksTo, marksBehind, marksAt, List.append_assoc]

theorem marksBehind_split {t s u : Nat} (ht : t < s) (hs : s < u) :
    marksBehind pairs t u = marksBehind pairs t s ++ marksBehind pairs s u := by
  rw [marksBehind, marksTo_split ht hs, ← List.append_assoc]
  rfl

/-- The innermost entry leaves the stack. -/
theorem Layered.tail {s u : Nat} {below : List Nat} (h : Layered pairs (s :: below) u) :
    Layered pairs below u := by
  obtain ⟨hs, hnested, hbelow⟩ := h
  cases below with
  | nil =>
    show Nested (marksTo pairs 0 u)
    rw [marksTo_split (Nat.zero_le s) hs]
    exact Nested.append hbelow hnested
  | cons t below =>
    obtain ⟨ht, hinner, hbelow⟩ := hbelow
    refine ⟨Nat.lt_trans ht hs, ?_, hbelow⟩
    rw [marksBehind_split ht hs]
    exact hinner.append hnested

theorem Layered.suffix {u : Nat} {stack below : List Nat} (hsuffix : below <:+ stack)
    (h : Layered pairs stack u) : Layered pairs below u := by
  obtain ⟨above, rfl⟩ := hsuffix
  induction above with
  | nil => exact h
  | cons s above ih => exact ih h.tail

theorem Layered.lt {u : Nat} :
    ∀ {stack : List Nat}, Layered pairs stack u → ∀ s ∈ stack, s < u := by
  intro stack
  induction stack generalizing u with
  | nil => intro _ s hs; cases hs
  | cons t below ih =>
    intro h s hs
    obtain ⟨ht, -, hbelow⟩ := h
    rcases List.mem_cons.1 hs with rfl | hs
    · exact ht
    · exact Nat.lt_trans (ih hbelow s hs) ht

/-- No mark stands between the insertion places of two neighbours. -/
theorem Layered.next {u : Nat} {stack : List Nat} (h : Layered pairs stack u)
    (hopens : opensAt pairs u = []) (hcloses : closesAt pairs (u + 1) = []) :
    Layered pairs stack (u + 1) := by
  have hto : ∀ lo, lo ≤ u → marksTo pairs lo (u + 1) = marksTo pairs lo u := by
    intro lo hlo
    rw [marksTo_split hlo (Nat.lt_succ_self u), marksBehind, hopens]
    simp [marksTo, hcloses]
  cases stack with
  | nil =>
    show Nested (marksTo pairs 0 (u + 1))
    rw [hto 0 (Nat.zero_le u)]
    exact h
  | cons s below =>
    obtain ⟨hs, hnested, hbelow⟩ := h
    refine ⟨Nat.lt_succ_of_lt hs, ?_, hbelow⟩
    rw [marksBehind, hto (s + 1) hs]
    exact hnested

end Places

/-! ## A new pair -/

section Add
variable {pairs : List EmphasisPair} (m : EmphasisPair)

theorem opensAt_add (i : Nat) : opensAt (pairs ++ [m]) i =
    (if m.opener = i then [m] else []) ++ opensAt pairs i := by
  unfold opensAt
  rw [List.filter_append, List.reverse_append]
  by_cases h : m.opener = i <;> simp [h]

theorem closesAt_add (i : Nat) : closesAt (pairs ++ [m]) i =
    closesAt pairs i ++ if m.closer = i then [m] else [] := by
  unfold closesAt
  rw [List.filter_append]
  by_cases h : m.closer = i <;> simp [h]

theorem consumed_add (i : Nat) : consumed (pairs ++ [m]) i =
    consumed pairs i + (if m.closer = i then m.used else 0) +
      if m.opener = i then m.used else 0 := by
  unfold consumed
  rw [opensAt_add, closesAt_add]
  by_cases hc : m.closer = i <;> by_cases ho : m.opener = i <;> simp [hc, ho] <;> omega

/-- Nothing changes in front of the opener's insertion place. -/
theorem marksTo_add {lo hi : Nat} (ho : m.opener < lo ∨ hi ≤ m.opener) (hc : hi < m.closer) :
    marksTo (pairs ++ [m]) lo hi = marksTo pairs lo hi := by
  have hmarks : ∀ i ∈ List.range' lo (hi - lo), marksAt (pairs ++ [m]) i = marksAt pairs i := by
    intro i hi'
    rw [List.mem_range'_1] at hi'
    rw [marksAt, opensAt_add, closesAt_add, if_neg (show m.opener ≠ i by omega),
      if_neg (show m.closer ≠ i by omega), List.append_nil, List.nil_append]
    rfl
  rw [marksTo, List.flatMap_congr hmarks, closesAt_add, if_neg (show m.closer ≠ hi by omega),
    List.append_nil]
  rfl

/-- The pair wraps what stands behind its opener. -/
theorem marksBehind_add (h : m.opener < m.closer) :
    marksBehind (pairs ++ [m]) m.opener m.closer =
      .open_ m :: (marksBehind pairs m.opener m.closer ++ [.close m]) := by
  have hmarks : ∀ i ∈ List.range' (m.opener + 1) (m.closer - (m.opener + 1)),
      marksAt (pairs ++ [m]) i = marksAt pairs i := by
    intro i hi
    rw [List.mem_range'_1] at hi
    rw [marksAt, opensAt_add, closesAt_add, if_neg (show m.opener ≠ i by omega),
      if_neg (show m.closer ≠ i by omega), List.append_nil, List.nil_append]
    rfl
  rw [marksBehind, marksTo, List.flatMap_congr hmarks, opensAt_add, closesAt_add, if_pos rfl,
    if_pos rfl]
  simp [marksBehind, marksTo]

theorem Layered.below (h : m.opener < m.closer) : ∀ {below : List Nat} {s : Nat},
    s ≤ m.opener → Layered pairs below s → Layered (pairs ++ [m]) below s := by
  intro below
  induction below with
  | nil =>
    intro s hs hbelow
    show Nested _
    rw [marksTo_add m (Or.inr hs) (by omega)]
    exact hbelow
  | cons t below ih =>
    intro s hs hlayered
    obtain ⟨ht, hnested, hbelow⟩ := hlayered
    refine ⟨ht, ?_, ih (by omega) hbelow⟩
    rw [marksBehind, opensAt_add, if_neg (show m.opener ≠ t by omega), List.nil_append,
      marksTo_add m (Or.inr hs) (by omega)]
    exact hnested

/-- A pair on the innermost entry. -/
theorem Layered.add {below : List Nat} (h : Layered pairs (m.opener :: below) m.closer) :
    Layered (pairs ++ [m]) (m.opener :: below) m.closer := by
  obtain ⟨hlt, hnested, hbelow⟩ := h
  refine ⟨hlt, ?_, Layered.below m hlt (Nat.le_refl _) hbelow⟩
  rw [marksBehind_add m hlt]
  exact hnested.wrap m

end Add

/-! ## The loop -/

/-- The state of the loop at piece `u`, after some pairs. -/
structure EmphasisInv (ps : List Piece) (pairs : List EmphasisPair) (e : Emphasis) (u : Nat) :
    Prop where
  pieces_eq : e.pieces = ps.mapIdx (Piece.marked pairs)
  sound : ∀ m ∈ pairs, m.Sound ps
  reached : ∀ m ∈ pairs, m.closer ≤ u
  kept : ∀ i p, ps[i]? = some p → consumed pairs i ≤ p.count
  runs : ∀ s ∈ e.stack, ∃ p, ps[s]? = some p ∧ p.delim = true
  layered : Layered pairs e.stack u

/-- What a search finds is the nearest entry that opens, above the floor. -/
theorem findOpener_eq {e : Emphasis} {closer : Piece} {floor s : Nat} {below : List Nat} :
    ∀ {stack : List Nat}, e.findOpener closer floor stack = some (s, below) →
      (s :: below) <:+ stack ∧ floor ≤ below.length ∧ opens (e.piece s) closer = true := by
  intro stack
  induction stack with
  | nil => intro h; cases h
  | cons t rest ih =>
    intro h
    rw [Emphasis.findOpener] at h
    split at h
    · cases h
    · rename_i hfloor
      split at h
      · rename_i hopens
        cases h
        exact ⟨List.suffix_rfl, by omega, hopens⟩
      · obtain ⟨hsuffix, hrest⟩ := ih h
        exact ⟨hsuffix.trans (List.suffix_cons t rest), hrest⟩

section Loop
variable {ps : List Piece} {pairs : List EmphasisPair} {e : Emphasis} {u : Nat}

theorem EmphasisInv.piece (h : EmphasisInv ps pairs e u) {i : Nat} {p : Piece}
    (hp : ps[i]? = some p) : e.piece i = p.marked pairs i := by
  rw [Emphasis.piece, h.pieces_eq, List.getD_eq_getElem?_getD, List.getElem?_mapIdx, hp]
  rfl

/-- How many delimiters a pair takes. -/
def usedOf (opener closer : Piece) : Nat := if opener.count ≥ 2 && closer.count ≥ 2 then 2 else 1

theorem usedOf_le {o c : Piece} (ho : o.count ≠ 0) (hc : c.count ≠ 0) :
    (usedOf o c = 1 ∨ usedOf o c = 2) ∧ usedOf o c ≤ o.count ∧ usedOf o c ≤ c.count := by
  unfold usedOf
  split
  · rename_i hboth
    simp only [ge_iff_le, Bool.and_eq_true, decide_eq_true_eq] at hboth
    exact ⟨Or.inr rfl, hboth⟩
  · exact ⟨Or.inl rfl, by omega, by omega⟩

/-- The two runs change as their marks say, and no other piece does. -/
theorem pieces_pair (h : e.pieces = ps.mapIdx (Piece.marked pairs)) {s u : Nat} (hlt : s < u)
    (below : List Nat) : (e.pair s u below).pieces =
      ps.mapIdx (Piece.marked (pairs ++ [⟨s, u, usedOf (e.piece s) (e.piece u)⟩])) := by
  apply List.ext_getElem?
  intro i
  simp only [Emphasis.pair, List.getElem?_modify, h, List.getElem?_mapIdx]
  cases ps[i]? with
  | none => rfl
  | some p =>
    simp only [Option.map_some, Option.map_eq_map, Piece.marked, opensAt_add, closesAt_add,
      consumed_add]
    by_cases hs : s = i
    · subst hs
      simp only [if_true, if_neg (show u ≠ s by omega)]
      simp [usedOf, Nat.sub_sub]
    · by_cases hu : u = i
      · subst hu
        simp only [if_true, if_neg hs]
        simp [usedOf, Nat.sub_sub]
      · simp only [if_neg hs, if_neg hu]
        simp

/-- One pair. -/
theorem EmphasisInv.pair (h : EmphasisInv ps pairs e u) {s : Nat} {below : List Nat} {c : Piece}
    (hc : ps[u]? = some c) (hcdelim : c.delim = true) (hcclose : c.canClose = true)
    (hcount : (e.piece u).count ≠ 0) (hstack : (s :: below) <:+ e.stack)
    (hopens : opens (e.piece s) (e.piece u) = true) :
    EmphasisInv ps (pairs ++ [⟨s, u, usedOf (e.piece s) (e.piece u)⟩]) (e.pair s u below) u := by
  obtain ⟨o, ho, hodelim⟩ := h.runs s (hstack.subset List.mem_cons_self)
  have hlayered := h.layered.suffix hstack
  have hlt : s < u := hlayered.1
  have hpo := h.piece ho
  have hpc := h.piece hc
  have hopener : (e.piece s).ch = (e.piece u).ch ∧ (e.piece s).canOpen = true ∧
      (e.piece s).count ≠ 0 := by
    simp only [opens, Bool.and_eq_true, beq_iff_eq, bne_iff_ne] at hopens
    exact ⟨hopens.1.1.1, hopens.1.1.2, hopens.1.2⟩
  obtain ⟨hch, hcan, hocount⟩ := hopener
  have hused := usedOf_le hocount hcount
  have hsuffix : (e.pair s u below).stack <:+ s :: below := by
    show (if (e.piece s).count = usedOf (e.piece s) (e.piece u) then below else s :: below) <:+ _
    split
    · exact List.suffix_cons s below
    · exact List.suffix_rfl
  refine ⟨pieces_pair h.pieces_eq hlt below, ?_, ?_, ?_, ?_, ?_⟩
  · intro m hm
    rcases List.mem_append.1 hm with hm | hm
    · exact h.sound m hm
    · rw [List.mem_singleton.1 hm]
      refine ⟨hlt, hused.1, o, c, ho, hc, hodelim, hcdelim, ?_, ?_, hcclose⟩
      · rw [hpo, hpc] at hch; exact hch
      · rw [hpo] at hcan; exact hcan
  · intro m hm
    rcases List.mem_append.1 hm with hm | hm
    · exact h.reached m hm
    · rw [List.mem_singleton.1 hm]
  · intro i p hp
    have hkept := h.kept i p hp
    have hocount : (e.piece s).count = o.count - consumed pairs s := by rw [hpo]; rfl
    have hccount : (e.piece u).count = c.count - consumed pairs u := by rw [hpc]; rfl
    rw [consumed_add]
    dsimp only
    by_cases hu : u = i
    · subst hu
      rw [if_pos rfl, if_neg (by omega)]
      obtain rfl := Option.some.inj (hc.symm.trans hp)
      omega
    · rw [if_neg hu]
      by_cases hs : s = i
      · subst hs
        rw [if_pos rfl]
        obtain rfl := Option.some.inj (ho.symm.trans hp)
        omega
      · rw [if_neg hs]; omega
  · intro t ht
    exact h.runs t ((hsuffix.trans hstack).subset ht)
  · exact (Layered.add ⟨s, u, _⟩ hlayered).suffix hsuffix

/-- All pairs of a closer. -/
theorem EmphasisInv.close {c : Piece} (hc : ps[u]? = some c) (hcdelim : c.delim = true)
    (hcclose : c.canClose = true) (floor : Nat) : ∀ (n : Nat) {pairs : List EmphasisPair}
    {e : Emphasis}, EmphasisInv ps pairs e u →
    ∃ more, EmphasisInv ps (pairs ++ more) (Emphasis.close floor u n e).1 u := by
  intro n
  induction n with
  | zero => intro pairs e h; exact ⟨[], by rw [List.append_nil]; exact h⟩
  | succ n ih =>
    intro pairs e h
    rw [Emphasis.close]
    by_cases hcount : (e.piece u).count = 0
    · rw [if_pos hcount]
      exact ⟨[], by rw [List.append_nil]; exact h⟩
    · rw [if_neg hcount]
      cases hfind : e.findOpener (e.piece u) floor e.stack with
      | none => exact ⟨[], by rw [List.append_nil]; exact h⟩
      | some r =>
        obtain ⟨s, below⟩ := r
        obtain ⟨hstack, -, hopens⟩ := findOpener_eq hfind
        obtain ⟨more, hmore⟩ := ih (h.pair hc hcdelim hcclose hcount hstack hopens)
        rw [List.append_assoc] at hmore
        exact ⟨_, hmore⟩

theorem EmphasisInv.marks_ahead (h : EmphasisInv ps pairs e u) :
    (∀ i, u ≤ i → opensAt pairs i = []) ∧ ∀ i, u < i → closesAt pairs i = [] := by
  constructor
  · intro i hi
    rw [opensAt, List.reverse_eq_nil_iff, List.filter_eq_nil_iff]
    intro m hm
    have hlater := (h.sound m hm).later
    have hreached := h.reached m hm
    rw [beq_iff_eq]
    omega
  · intro i hi
    rw [closesAt, List.filter_eq_nil_iff]
    intro m hm
    have hreached := h.reached m hm
    rw [beq_iff_eq]
    omega

/-- On to the next piece, which a run may await on the stack. -/
theorem EmphasisInv.next (h : EmphasisInv ps pairs e u) : EmphasisInv ps pairs e (u + 1) := by
  obtain ⟨hopens, hcloses⟩ := h.marks_ahead
  exact ⟨h.pieces_eq, h.sound, fun m hm => Nat.le_succ_of_le (h.reached m hm), h.kept, h.runs,
    h.layered.next (hopens u (Nat.le_refl u)) (hcloses (u + 1) (Nat.lt_succ_self u))⟩

theorem EmphasisInv.push (h : EmphasisInv ps pairs e u) {c : Piece} (hc : ps[u]? = some c)
    (hcdelim : c.delim = true) :
    EmphasisInv ps pairs { e with stack := u :: e.stack } (u + 1) := by
  obtain ⟨hopens, hcloses⟩ := h.marks_ahead
  refine ⟨h.pieces_eq, h.sound, fun m hm => Nat.le_succ_of_le (h.reached m hm), h.kept, ?_,
    Nat.lt_succ_self u, ?_, h.layered⟩
  · intro s hs
    rcases List.mem_cons.1 hs with rfl | hs
    · exact ⟨c, hc, hcdelim⟩
    · exact h.runs s hs
  · rw [marksBehind, marksTo, hopens u (Nat.le_refl u), hcloses (u + 1) (Nat.lt_succ_self u)]
    simpa using Nested.nil

/-- The table of floors plays no part. -/
theorem EmphasisInv.bottom (h : EmphasisInv ps pairs e u)
    (bottom : List ((UInt8 × Bool × Nat) × Nat)) :
    EmphasisInv ps pairs { e with bottom := bottom } u :=
  ⟨h.pieces_eq, h.sound, h.reached, h.kept, h.runs, h.layered⟩

end Loop

/-- The kind of a closer, and the floor recorded for it.
mirrors src/mapping/markdown_inline.cpp:290-291 -/
def Piece.kind (closer : Piece) : UInt8 × Bool × Nat := (closer.ch, closer.canOpen, closer.orig % 3)

def Emphasis.floorFor (e : Emphasis) (index : Nat) : Nat :=
  (e.bottom.lookup (e.piece index).kind).getD 0

/-- A closer and its pairs, searching down to a given floor.
mirrors src/mapping/markdown_inline.cpp:289-329 -/
def Emphasis.closing (floor : Nat) (e : Emphasis) (index : Nat) : Emphasis :=
  let closer := e.piece index
  if closer.canClose then
    let r := Emphasis.close floor index closer.count e
    if r.2 then r.1 else { r.1 with bottom := (closer.kind, r.1.stack.length) :: r.1.bottom }
  else e

/-- One piece of the loop. -/
def Emphasis.stepDownTo (floor : Nat) (e : Emphasis) (index : Nat) : Emphasis :=
  let closer := e.piece index
  if !closer.delim then e
  else
    let e := Emphasis.closing floor e index
    if (e.piece index).count > 0 && closer.canOpen then { e with stack := index :: e.stack } else e

theorem step_eq (e : Emphasis) (index : Nat) :
    e.step index = Emphasis.stepDownTo (e.floorFor index) e index := rfl

section Step
variable {ps : List Piece} {pairs : List EmphasisPair} {e : Emphasis} {u : Nat}

theorem EmphasisInv.closing (h : EmphasisInv ps pairs e u) (hu : u < ps.length)
    (hdelim : ps[u].delim = true) (floor : Nat) :
    ∃ more, EmphasisInv ps (pairs ++ more) (Emphasis.closing floor e u) u := by
  have hc : ps[u]? = some ps[u] := List.getElem?_eq_getElem hu
  have hclose : (e.piece u).canClose = ps[u].canClose := by rw [h.piece hc]; rfl
  unfold Emphasis.closing
  dsimp only
  split
  · rename_i hcan
    obtain ⟨more, hmore⟩ := EmphasisInv.close hc hdelim (hclose ▸ hcan) floor (e.piece u).count h
    refine ⟨more, ?_⟩
    split
    · exact hmore
    · exact hmore.bottom _
  · exact ⟨[], by rw [List.append_nil]; exact h⟩

/-- One piece, whatever the floor. -/
theorem EmphasisInv.step (h : EmphasisInv ps pairs e u) (hu : u < ps.length) (floor : Nat) :
    ∃ more, EmphasisInv ps (pairs ++ more) (Emphasis.stepDownTo floor e u) (u + 1) := by
  have hc : ps[u]? = some ps[u] := List.getElem?_eq_getElem hu
  have hdelim : (e.piece u).delim = ps[u].delim := by rw [h.piece hc]; rfl
  unfold Emphasis.stepDownTo
  dsimp only
  split
  · exact ⟨[], by rw [List.append_nil]; exact h.next⟩
  · rename_i hd
    have hd : ps[u].delim = true := by rw [← hdelim]; simpa using hd
    obtain ⟨more, hmore⟩ := h.closing hu hd floor
    refine ⟨more, ?_⟩
    split
    · exact hmore.push hc hd
    · exact hmore.next

end Step

theorem marked_nil (i : Nat) (p : Piece) : p.marked [] i = p := by
  simp [Piece.marked, opensAt, closesAt, consumed]

/-- All pieces. -/
theorem EmphasisInv.run {ps : List Piece} (floor : Emphasis → Nat → Nat) : ∀ u ≤ ps.length,
    ∃ pairs, EmphasisInv ps pairs ((List.range u).foldl
      (fun e i => Emphasis.stepDownTo (floor e i) e i) { pieces := ps }) u := by
  intro u
  induction u with
  | zero =>
    intro _
    refine ⟨[], ?_, nofun, nofun, fun i p hp => Nat.zero_le _, nofun, ?_⟩
    · rw [funext fun i => funext (marked_nil i)]
      exact List.mapIdx_eq_zipIdx_map ▸ (by simp)
    · simpa [Layered, marksTo, closesAt] using Nested.nil
  | succ u ih =>
    intro hu
    obtain ⟨pairs, h⟩ := ih (Nat.le_of_succ_le hu)
    obtain ⟨more, hmore⟩ := h.step hu (floor _ u)
    rw [List.range_succ, List.foldl_append]
    exact ⟨_, hmore⟩

/-! ## The output -/

/-- What the output is made of: text and raw HTML, delimiters left literal,
and generated tags. -/
inductive OutputItem
  | html (raw : Bytes)
  | literal (ch : UInt8) (count : Nat)
  | tag (mark : Mark EmphasisPair)

def OutputItem.bytes : OutputItem → Bytes
  | .html raw => raw
  | .literal ch count => List.replicate count ch
  | .tag (.open_ m) => openTagOf m.used
  | .tag (.close m) => closeTagOf m.used

def OutputItem.mark? : OutputItem → Option (Mark EmphasisPair)
  | .tag mark => some mark
  | _ => none

/-- The output of piece `i`; `left` delimiters of a run stay. -/
def outputAt (pairs : List EmphasisPair) (left : Nat → Nat) (i : Nat) (p : Piece) :
    List OutputItem :=
  if p.delim then
    (closesAt pairs i).map (fun m => .tag (.close m)) ++
      .literal p.ch (left i) :: (opensAt pairs i).map fun m => .tag (.open_ m)
  else [.html p.html]

def output (pairs : List EmphasisPair) (left : Nat → Nat) (ps : List Piece) : List OutputItem :=
  (ps.mapIdx (outputAt pairs left)).flatten

/-- A piece as the tokens have it; no delimiter looks like a tag. -/
structure Piece.Fresh (p : Piece) : Prop where
  whole : p.count = p.orig
  no_open : p.openTags = []
  no_close : p.closeTags = []
  ch_ne : p.ch ≠ 0x3C

theorem flush_fresh (buffer : Bytes) : ∀ p ∈ flush buffer, p.Fresh := by
  intro p hp
  unfold flush at hp
  split at hp
  · cases hp
  · rw [List.mem_singleton.1 hp]; exact ⟨rfl, rfl, rfl, nofun⟩

theorem token_fresh {prev : Option UInt8} {c : UInt8} {rest : Bytes} {p : Piece}
    (h : (token prev c rest).1 = .delim p) : p.Fresh := by
  have hticks : ∀ l : Bytes, (backticks l).1 ≠ .delim p := by
    intro l
    unfold backticks
    dsimp only
    split <;> exact nofun
  unfold token at h
  dsimp only at h
  generalize (if c == 0x24 || c == 0x5C || c == 0x3C then literalEnd prev (c :: rest) else none) =
    literal at h
  cases literal with
  | some r => cases h
  | none =>
    dsimp only at h
    split at h
    · exact absurd h (hticks _)
    split at h
    · cases h
    split at h
    · cases h
    cases htag : htmlTagEnd (c :: rest) with
    | some r => rw [htag] at h; cases h
    | none =>
      rw [htag] at h
      dsimp only at h
      split at h
      · rename_i hc
        cases h
        refine ⟨rfl, rfl, rfl, fun (hlt : c = 0x3C) => ?_⟩
        subst hlt
        exact absurd hc (by decide)
      split at h
      · cases h
      · cases h

theorem piecesFrom_fresh : ∀ (n : Nat) (prev : Option UInt8) (buffer rest : Bytes),
    ∀ p ∈ piecesFrom n prev buffer rest, p.Fresh := by
  intro n
  induction n with
  | zero => intro prev buffer rest; exact flush_fresh buffer
  | succ n ih =>
    intro prev buffer rest p hp
    cases rest with
    | nil => exact flush_fresh buffer p hp
    | cons c rest =>
      rw [piecesFrom] at hp
      cases htoken : (token prev c rest).1 with
      | raw html =>
        rw [htoken] at hp
        exact ih _ _ _ p hp
      | newline =>
        rw [htoken] at hp
        exact ih _ _ _ p hp
      | delim q =>
        rw [htoken] at hp
        rcases List.mem_append.1 hp with hp | hp
        · exact flush_fresh buffer p hp
        · rcases List.mem_cons.1 hp with rfl | hp
          · exact token_fresh htoken
          · exact ih _ _ _ p hp

theorem pieces_fresh (text : Bytes) : ∀ p ∈ pieces text, p.Fresh := piecesFrom_fresh _ _ _ _

theorem render_marked {pairs : List EmphasisPair} {left : Nat → Nat} {i : Nat} {p : Piece}
    (hp : p.Fresh) (hleft : left i = p.count - consumed pairs i) :
    (p.marked pairs i).render = (outputAt pairs left i p).flatMap OutputItem.bytes := by
  obtain ⟨-, hopen, hclose, -⟩ := hp
  unfold Piece.render outputAt
  cases hdelim : p.delim with
  | false => simp [Piece.marked, hdelim, OutputItem.bytes]
  | true =>
    simp [Piece.marked, hdelim, OutputItem.bytes, hopen, hclose, hleft, List.flatMap_append,
      List.flatMap_map]

/-- Only delimiter runs have marks. -/
theorem marksAt_text {ps : List Piece} {pairs : List EmphasisPair}
    (hsound : ∀ m ∈ pairs, m.Sound ps) {i : Nat} {p : Piece} (hp : ps[i]? = some p)
    (htext : p.delim = false) : marksAt pairs i = [] := by
  have hopens : opensAt pairs i = [] := by
    rw [opensAt, List.reverse_eq_nil_iff, List.filter_eq_nil_iff]
    intro m hm heq
    obtain ⟨o, c, ho, hc, hod, hcd, -⟩ := (hsound m hm).runs
    rw [beq_iff_eq.1 heq, hp] at ho
    cases ho
    rw [htext] at hod
    cases hod
  have hcloses : closesAt pairs i = [] := by
    rw [closesAt, List.filter_eq_nil_iff]
    intro m hm heq
    obtain ⟨o, c, ho, hc, hod, hcd, -⟩ := (hsound m hm).runs
    rw [beq_iff_eq.1 heq, hp] at hc
    cases hc
    rw [htext] at hcd
    cases hcd
  rw [marksAt, hopens, hcloses]
  rfl

theorem output_marks {ps : List Piece} {pairs : List EmphasisPair} (left : Nat → Nat)
    (hsound : ∀ m ∈ pairs, m.Sound ps) : (output pairs left ps).filterMap OutputItem.mark? =
      (List.range ps.length).flatMap (marksAt pairs) := by
  have hmarks : (ps.mapIdx (outputAt pairs left)).map (List.filterMap OutputItem.mark?) =
      (List.range ps.length).map (marksAt pairs) := by
    apply List.ext_getElem?
    intro i
    rw [List.getElem?_map, List.getElem?_mapIdx, List.getElem?_map]
    cases hp : ps[i]? with
    | none =>
      rw [List.getElem?_eq_none (by simpa using List.getElem?_eq_none_iff.1 hp)]
      rfl
    | some p =>
      rw [List.getElem?_range (List.getElem?_eq_some_iff.1 hp).1]
      simp only [Option.map_some, Option.some.injEq]
      unfold outputAt
      cases hdelim : p.delim with
      | false =>
        rw [marksAt_text hsound hp hdelim]
        rfl
      | true =>
        rw [if_pos rfl, List.filterMap_append, List.filterMap_cons_none rfl, List.filterMap_map,
          List.filterMap_map, marksAt]
        simp [Function.comp_def, OutputItem.mark?]
  rw [output, List.filterMap_flatten, hmarks, List.flatMap_def]

/-- **The generated tags are properly nested and use up what they stand for.**
The output of a paragraph is that of a list of pairs, each of which takes one
or two delimiters of one character from a run and as many from a later one;
their tags are nested, and of every run stays what its tags have not used. -/
theorem renderParagraph_nested (text : Bytes) : ∃ (pairs : List EmphasisPair) (left : Nat → Nat),
    renderParagraph text = (output pairs left (pieces text)).flatMap OutputItem.bytes ∧
      Nested ((output pairs left (pieces text)).filterMap OutputItem.mark?) ∧
      (∀ m ∈ pairs, m.Sound (pieces text)) ∧
      ∀ i p, (pieces text)[i]? = some p → p.delim = true → p.orig = consumed pairs i + left i := by
  obtain ⟨pairs, h⟩ := EmphasisInv.run Emphasis.floorFor (pieces text).length (Nat.le_refl _)
  let left : Nat → Nat := fun i => (((pieces text)[i]?.map Piece.count).getD 0) - consumed pairs i
  have hleft : ∀ {i p}, (pieces text)[i]? = some p → left i = p.count - consumed pairs i := by
    intro i p hp
    simp only [left, hp]
    rfl
  refine ⟨pairs, left, ?_, ?_, h.sound, ?_⟩
  · have hpieces : processEmphasis (pieces text) = (pieces text).mapIdx (Piece.marked pairs) :=
      h.pieces_eq
    have hparts : ((pieces text).mapIdx (Piece.marked pairs)).map Piece.render =
        ((pieces text).mapIdx (outputAt pairs left)).map (List.flatMap OutputItem.bytes) := by
      apply List.ext_getElem?
      intro i
      rw [List.getElem?_map, List.getElem?_map, List.getElem?_mapIdx, List.getElem?_mapIdx]
      cases hp : (pieces text)[i]? with
      | none => rfl
      | some p =>
        have hfresh := pieces_fresh text p (List.mem_of_getElem? hp)
        simp only [Option.map_some, render_marked hfresh (hleft hp)]
    rw [renderParagraph, hpieces, output, List.flatMap_def, List.flatMap_def, List.map_flatten,
      List.flatten_flatten, List.map_map]
    rw [hparts]; rfl
  · rw [output_marks left h.sound]
    have hnested : Nested (marksTo pairs 0 (pieces text).length) :=
      h.layered.suffix List.nil_suffix
    have hcloses : closesAt pairs (pieces text).length = [] := by
      rw [closesAt, List.filter_eq_nil_iff]
      intro m hm heq
      obtain ⟨o, c, -, hc, -⟩ := (h.sound m hm).runs
      rw [beq_iff_eq.1 heq, List.getElem?_length] at hc
      cases hc
    rw [marksTo, hcloses, List.map_nil, List.append_nil, ← List.range_eq_range'] at hnested
    exact hnested
  · intro i p hp _
    have hfresh := pieces_fresh text p (List.mem_of_getElem? hp)
    have hkept := h.kept i p hp
    rw [hleft hp, ← hfresh.whole]
    omega

end VlmConvert.L1

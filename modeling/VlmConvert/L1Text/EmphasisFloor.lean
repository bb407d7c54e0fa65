import VlmConvert.L1Text.Emphasis

/-!
# The floor of an opener search

`render_paragraph` remembers, for a closer that found no opener, how high the
stack was, and later closers of its kind search no deeper. The number is a
height of a stack that shrinks and grows again: an opener pushed later can
stand below it. Here the loop is compared with the one that searches the
whole stack.

`FloorSafe` is the exact condition at one closer, on the state before it:
the openers above the floor use it up, or none below fits.

Results:

* `closing_floor_eq`, `closing_floor_ne`: one closer, with and without floor.
* `rendered_inj`: the output of a paragraph says which tags each run has.
* `renderParagraph_wholeStack_iff`: the paragraph.
-/
namespace VlmConvert.L1

open Bytes

/-! ## The search of the whole stack -/

/-- The loop up to piece `u`, every closer searching the whole stack. The
heights are still written down, but nothing reads them. -/
def wholeStackRun (ps : List Piece) (u : Nat) : Emphasis :=
  (List.range u).foldl (Emphasis.stepDownTo 0) { pieces := ps }

/-- `render_paragraph` without the table. -/
def renderWholeStack (text : Bytes) : Bytes :=
  (wholeStackRun (pieces text) (pieces text).length).pieces.flatMap Piece.render

/-- The delimiters that the openers for a closer hold. -/
def Emphasis.available (e : Emphasis) (closer : Piece) (stack : List Nat) : Nat :=
  ((stack.filter fun s => opens (e.piece s) closer).map fun s => (e.piece s).count).sum

/-- A closer's floor does not matter: what stands above it uses the closer
up, or nothing below it fits. The stack has its lowest entry last. -/
def SafeAbove (floor : Nat) (e : Emphasis) (index : Nat) : Prop :=
  (e.piece index).count ≤
      e.available (e.piece index) (e.stack.take (e.stack.length - floor)) ∨
    ∀ s ∈ e.stack.drop (e.stack.length - floor), opens (e.piece s) (e.piece index) = false

def FloorSafe (e : Emphasis) (index : Nat) : Prop :=
  (e.piece index).delim = true → (e.piece index).canClose = true →
    SafeAbove (e.floorFor index) e index

/-! ## One pair -/

section Pair
variable {e : Emphasis} {s u : Nat} {below : List Nat}

theorem piece_modify (l : List Piece) (f : Piece → Piece) (i j : Nat) (hi : i < l.length) :
    (l.modify i f).getD j {} = if i = j then f (l.getD j {}) else l.getD j {} := by
  rw [List.getD_eq_getElem?_getD, List.getD_eq_getElem?_getD, List.getElem?_modify]
  by_cases hij : i = j
  · subst hij
    simp [List.getElem?_eq_getElem hi]
  · simp [hij]

theorem piece_pair (hs : s < u) (hu : u < e.pieces.length) (t : Nat) :
    (e.pair s u below).piece t =
      if u = t then { e.piece u with
        closeTags := (e.piece u).closeTags ++ closeTagOf (usedOf (e.piece s) (e.piece u))
        count := (e.piece u).count - usedOf (e.piece s) (e.piece u) }
      else if s = t then { e.piece s with
        openTags := openTagOf (usedOf (e.piece s) (e.piece u)) ++ (e.piece s).openTags
        count := (e.piece s).count - usedOf (e.piece s) (e.piece u) }
      else e.piece t := by
  unfold Emphasis.pair Emphasis.piece
  dsimp only
  rw [piece_modify _ _ u t (by rw [List.length_modify]; exact hu),
    piece_modify _ _ s t (Nat.lt_trans hs hu)]
  by_cases hut : u = t
  · subst hut
    rw [if_pos rfl, if_pos rfl, if_neg (Nat.ne_of_lt hs)]
    rfl
  · rw [if_neg hut, if_neg hut]
    by_cases hst : s = t
    · subst hst
      rw [if_pos rfl, if_pos rfl]
      rfl
    · rw [if_neg hst, if_neg hst]

end Pair

/-- The stack has the open runs in order, all in front of the closer. -/
structure Ordered (e : Emphasis) (u : Nat) : Prop where
  sorted : e.stack.Pairwise (· > ·)
  before : ∀ s ∈ e.stack, s < u
  inside : u < e.pieces.length

theorem EmphasisInv.ordered {ps : List Piece} {pairs : List EmphasisPair} {e : Emphasis} {u : Nat}
    (h : EmphasisInv ps pairs e u) (hu : u < ps.length) : Ordered e u := by
  have hsorted : ∀ (stack : List Nat) (u : Nat), Layered pairs stack u →
    stack.Pairwise (· > ·) := by
    intro stack
    induction stack with
    | nil => intro u _; exact List.Pairwise.nil
    | cons s below ih =>
      intro u hl
      obtain ⟨-, -, hbelow⟩ := hl
      exact List.Pairwise.cons (fun t ht => hbelow.lt t ht) (ih s hbelow)
  exact ⟨hsorted _ _ h.layered, h.layered.lt, by rw [h.pieces_eq, List.length_mapIdx]; exact hu⟩

section Ordered
variable {e : Emphasis} {s u : Nat} {below : List Nat}

theorem stack_pair (e : Emphasis) (s u : Nat) (below : List Nat) :
    (e.pair s u below).stack =
      if (e.piece s).count = usedOf (e.piece s) (e.piece u) then below else s :: below := rfl

theorem length_pair (e : Emphasis) (s u : Nat) (below : List Nat) :
    (e.pair s u below).pieces.length = e.pieces.length := by
  simp [Emphasis.pair]

theorem Ordered.pair (h : Ordered e u) (hstack : (s :: below) <:+ e.stack) :
    Ordered (e.pair s u below) u := by
  have hsuffix : (e.pair s u below).stack <:+ e.stack := by
    refine List.IsSuffix.trans ?_ hstack
    rw [stack_pair]
    split
    · exact List.suffix_cons s below
    · exact List.suffix_rfl
  exact ⟨h.sorted.sublist hsuffix.sublist, fun t ht => h.before t (hsuffix.subset ht),
    by rw [length_pair]; exact h.inside⟩

end Ordered

/-! ## The search -/

section Search
variable {e : Emphasis} {closer : Piece}

theorem findOpener_zero : ∀ {stack : List Nat}, (∃ t ∈ stack, opens (e.piece t) closer = true) →
    ∃ above s below, stack = above ++ s :: below ∧
      (∀ t ∈ above, opens (e.piece t) closer = false) ∧ opens (e.piece s) closer = true := by
  intro stack
  induction stack with
  | nil => intro h; obtain ⟨t, ht, -⟩ := h; cases ht
  | cons r rest ih =>
    intro h
    cases hr : opens (e.piece r) closer with
    | true => exact ⟨[], r, rest, rfl, nofun, hr⟩
    | false =>
      obtain ⟨t, ht, hopens⟩ := h
      rcases List.mem_cons.1 ht with rfl | ht
      · rw [hr] at hopens; cases hopens
      · obtain ⟨above, s, below, rfl, habove, hs⟩ := ih ⟨t, ht, hopens⟩
        refine ⟨r :: above, s, below, rfl, ?_, hs⟩
        intro t ht
        rcases List.mem_cons.1 ht with rfl | ht
        · exact hr
        · exact habove t ht

/-- The nearest opener is found if it stands above the floor. -/
theorem findOpener_nearest {s : Nat} {below : List Nat} (floor : Nat)
    (hs : opens (e.piece s) closer = true) : ∀ {above : List Nat},
    (∀ t ∈ above, opens (e.piece t) closer = false) →
    e.findOpener closer floor (above ++ s :: below) =
      if floor ≤ below.length then some (s, below) else none := by
  intro above
  induction above with
  | nil =>
    intro _
    rw [List.nil_append, Emphasis.findOpener, if_pos hs]
    by_cases hfloor : floor ≤ below.length
    · rw [if_pos hfloor, if_neg (by omega)]
    · rw [if_neg hfloor, if_pos (by omega)]
  | cons r above ih =>
    intro habove
    have hr : ¬opens (e.piece r) closer = true := by simp [habove r List.mem_cons_self]
    rw [List.cons_append, Emphasis.findOpener, if_neg hr,
      ih fun t ht => habove t (List.mem_cons_of_mem r ht)]
    split
    · rename_i hfloor
      rw [List.length_append, List.length_cons] at hfloor
      rw [if_neg (by omega)]
    · rfl

theorem findOpener_none (floor : Nat) : ∀ {stack : List Nat},
    (∀ t ∈ stack, opens (e.piece t) closer = false) → e.findOpener closer floor stack = none := by
  intro stack
  induction stack with
  | nil => intro _; rfl
  | cons r rest ih =>
    intro h
    have hr : ¬opens (e.piece r) closer = true := by simp [h r List.mem_cons_self]
    rw [Emphasis.findOpener, if_neg hr, ih fun t ht => h t (List.mem_cons_of_mem r ht)]
    exact ite_self _

theorem available_append (l m : List Nat) :
    e.available closer (l ++ m) = e.available closer l + e.available closer m := by
  simp [Emphasis.available, List.filter_append]

theorem available_none {l : List Nat} (h : ∀ t ∈ l, opens (e.piece t) closer = false) :
    e.available closer l = 0 := by
  have hfilter : l.filter (fun t => opens (e.piece t) closer) = [] := by
    rw [List.filter_eq_nil_iff]
    intro t ht
    rw [h t ht]
    exact Bool.false_ne_true
  rw [Emphasis.available, hfilter]
  rfl

theorem available_cons {s : Nat} (hs : opens (e.piece s) closer = true) (l : List Nat) :
    e.available closer (s :: l) = (e.piece s).count + e.available closer l := by
  simp [Emphasis.available, hs]

end Search

/-! ## One closer -/

section Closer
variable {e : Emphasis} {floor s u : Nat} {above below : List Nat}

/-- Above the floor of a stack that opens at `s`. -/
theorem stack_above (hfloor : floor ≤ below.length) :
    (above ++ s :: below).take ((above ++ s :: below).length - floor) =
      above ++ s :: below.take (below.length - floor) ∧
    (above ++ s :: below).drop ((above ++ s :: below).length - floor) =
      below.drop (below.length - floor) := by
  have hlen : (above ++ s :: below).length - floor = above.length + (below.length - floor + 1) := by
    rw [List.length_append, List.length_cons]; omega
  rw [hlen, List.take_length_add_append, List.drop_length_add_append, List.take_succ_cons,
    List.drop_succ_cons]
  exact ⟨rfl, rfl⟩

/-- A pair leaves what the other runs open. -/
theorem opens_pair (hs : s < u) (hu : u < e.pieces.length) {t : Nat} (hts : s ≠ t) (htu : u ≠ t) :
    opens ((e.pair s u below).piece t) ((e.pair s u below).piece u) =
      opens (e.piece t) (e.piece u) := by
  rw [piece_pair hs hu, piece_pair hs hu, if_neg htu, if_neg hts, if_pos rfl]
  rfl

theorem available_pair (hs : s < u) (hu : u < e.pieces.length) {l : List Nat}
    (hl : ∀ t ∈ l, s ≠ t ∧ u ≠ t) :
    (e.pair s u below).available ((e.pair s u below).piece u) l = e.available (e.piece u) l := by
  have hfilter :
    l.filter (fun t => opens ((e.pair s u below).piece t) ((e.pair s u below).piece u)) =
      l.filter fun t => opens (e.piece t) (e.piece u) :=
    List.filter_congr fun t ht => opens_pair hs hu (hl t ht).1 (hl t ht).2
  rw [Emphasis.available, Emphasis.available, hfilter]
  congr 1
  refine List.map_congr_left fun t ht => ?_
  have ht := hl t (List.mem_of_mem_filter ht)
  rw [piece_pair hs hu, if_neg ht.2, if_neg ht.1]

/-- A pair above the floor takes as much from the closer as from what stands
there. -/
theorem safeAbove_pair (h : Ordered e u) (hstack : e.stack = above ++ s :: below)
    (habove : ∀ t ∈ above, opens (e.piece t) (e.piece u) = false)
    (hopens : opens (e.piece s) (e.piece u) = true) (hcount : (e.piece u).count ≠ 0)
    (hfloor : floor ≤ below.length) :
    SafeAbove floor (e.pair s u below) u ↔ SafeAbove floor e u := by
  have hmem : s ∈ e.stack := by rw [hstack]; simp
  have hs : s < u := h.before s hmem
  have hbelow : ∀ t ∈ below, s ≠ t ∧ u ≠ t := by
    intro t ht
    have hsorted := h.sorted
    rw [hstack, List.pairwise_append] at hsorted
    have hlt := List.rel_of_pairwise_cons hsorted.2.1 ht
    exact ⟨by omega, by omega⟩
  have hocount : (e.piece s).count ≠ 0 := by
    simp only [opens, Bool.and_eq_true, bne_iff_ne] at hopens
    exact hopens.1.2
  obtain ⟨-, huo, huc⟩ := usedOf_le hocount hcount
  -- the pair's own run: what it holds, and that it still opens if it stays
  have hself : (e.pair s u below).stack = below ∧
    (e.piece s).count = usedOf (e.piece s) (e.piece u) ∨
      (e.pair s u below).stack = s :: below ∧
        (e.piece s).count ≠ usedOf (e.piece s) (e.piece u) := by
    rw [stack_pair]
    by_cases hused : (e.piece s).count = usedOf (e.piece s) (e.piece u)
    · exact Or.inl ⟨if_pos hused, hused⟩
    · exact Or.inr ⟨if_neg hused, hused⟩
  have hleft : ((e.pair s u below).piece u).count =
      (e.piece u).count - usedOf (e.piece s) (e.piece u) := by
    rw [piece_pair hs h.inside, if_pos rfl]
  have hpart : (e.pair s u below).available ((e.pair s u below).piece u)
      (below.take (below.length - floor)) =
      e.available (e.piece u) (below.take (below.length - floor)) :=
    available_pair hs h.inside fun t ht => hbelow t (List.mem_of_mem_take ht)
  have hlow : (∀ t ∈ below.drop (below.length - floor),
      opens ((e.pair s u below).piece t) ((e.pair s u below).piece u) = false) ↔
      ∀ t ∈ below.drop (below.length - floor), opens (e.piece t) (e.piece u) = false := by
    refine forall_congr' fun t => forall_congr' fun ht => ?_
    have ht := hbelow t (List.mem_of_mem_drop ht)
    rw [opens_pair hs h.inside ht.1 ht.2]
  obtain ⟨htake, hdrop⟩ := @stack_above floor s above below hfloor
  have hbefore : e.available (e.piece u) (e.stack.take (e.stack.length - floor)) =
      (e.piece s).count + e.available (e.piece u) (below.take (below.length - floor)) := by
    rw [hstack, htake, available_append, available_none habove, available_cons hopens, Nat.zero_add]
  have hdropped : e.stack.drop (e.stack.length - floor) = below.drop (below.length - floor) := by
    rw [hstack]; exact hdrop
  unfold SafeAbove
  rw [hbefore, hdropped]
  rcases hself with ⟨hpopped, hused⟩ | ⟨hstays, hused⟩
  · rw [hpopped, hpart, hlow, hleft]
    refine or_congr ?_ Iff.rfl
    omega
  · have hopens' : opens ((e.pair s u below).piece s) ((e.pair s u below).piece u) = true := by
      rw [piece_pair hs h.inside, piece_pair hs h.inside, if_neg (by omega), if_pos rfl, if_pos rfl]
      simp only [opens, Bool.and_eq_true, bne_iff_ne] at hopens ⊢
      exact ⟨⟨hopens.1.1, by omega⟩, hopens.2⟩
    obtain ⟨htake', hdrop'⟩ := @stack_above floor s [] below hfloor
    rw [List.nil_append] at htake' hdrop'
    have hown : ((e.pair s u below).piece s).count =
        (e.piece s).count - usedOf (e.piece s) (e.piece u) := by
      rw [piece_pair hs h.inside, if_neg (by omega), if_pos rfl]
    rw [hstays, htake', hdrop', List.nil_append, available_cons hopens', hpart, hlow, hleft, hown]
    refine or_congr ?_ Iff.rfl
    omega

/-- A search of the whole stack finds nothing, and so does any; or it finds
the nearest opener, and a floor above that hides it. -/
theorem search_cases (e : Emphasis) (u : Nat) :
    (∀ floor, e.findOpener (e.piece u) floor e.stack = none) ∧
        (∀ t ∈ e.stack, opens (e.piece t) (e.piece u) = false) ∨
      ∃ above s below, e.stack = above ++ s :: below ∧
        (∀ t ∈ above, opens (e.piece t) (e.piece u) = false) ∧
        opens (e.piece s) (e.piece u) = true ∧
        ∀ floor, e.findOpener (e.piece u) floor e.stack =
          if floor ≤ below.length then some (s, below) else none := by
  by_cases hany : ∃ t ∈ e.stack, opens (e.piece t) (e.piece u) = true
  · obtain ⟨above, s, below, hstack, habove, hs⟩ := findOpener_zero hany
    refine Or.inr ⟨above, s, below, hstack, habove, hs, fun floor => ?_⟩
    rw [hstack]
    exact findOpener_nearest floor hs habove
  · have hnone : ∀ t ∈ e.stack, opens (e.piece t) (e.piece u) = false := by
      intro t ht
      rw [← Bool.not_eq_true]
      exact fun hopens => hany ⟨t, ht, hopens⟩
    exact Or.inl ⟨fun floor => findOpener_none floor hnone, hnone⟩

/-- Nothing above the floor fits, and something below it does. -/
theorem not_safeAbove (hstack : e.stack = above ++ s :: below)
    (habove : ∀ t ∈ above, opens (e.piece t) (e.piece u) = false)
    (hopens : opens (e.piece s) (e.piece u) = true) (hcount : (e.piece u).count ≠ 0)
    (hfloor : below.length < floor) : ¬SafeAbove floor e u := by
  have hlen : e.stack.length - floor ≤ above.length := by
    rw [hstack, List.length_append, List.length_cons]; omega
  intro hsafe
  rcases hsafe with hused | hnone
  · have hzero : e.available (e.piece u) (e.stack.take (e.stack.length - floor)) = 0 := by
      refine available_none fun t ht => habove t ?_
      rw [hstack, List.take_append_of_le_length (hstack ▸ hlen)] at ht
      exact List.mem_of_mem_take ht
    omega
  · have hmem : s ∈ e.stack.drop (e.stack.length - floor) := by
      rw [hstack, List.drop_append_of_le_length (hstack ▸ hlen)]
      simp
    rw [hnone s hmem] at hopens
    cases hopens

/-- **A floor that is safe changes nothing.** -/
theorem close_floor_eq : ∀ (n : Nat) {e : Emphasis}, Ordered e u → SafeAbove floor e u →
    Emphasis.close floor u n e = Emphasis.close 0 u n e := by
  intro n
  induction n with
  | zero => intro e _ _; rfl
  | succ n ih =>
    intro e h hsafe
    rw [Emphasis.close, Emphasis.close]
    by_cases hcount : (e.piece u).count = 0
    · rw [if_pos hcount, if_pos hcount]
    · rw [if_neg hcount, if_neg hcount]
      rcases search_cases e u with ⟨hnone, -⟩ | ⟨above, s, below, hstack, habove, hopens, hfind⟩
      · rw [hnone, hnone]
      · have hfloor : floor ≤ below.length := by
          by_contra hlow
          exact not_safeAbove hstack habove hopens hcount (by omega) hsafe
        rw [hfind, hfind, if_pos hfloor, if_pos (Nat.zero_le _)]
        dsimp only
        rw [ih (h.pair (hstack ▸ List.suffix_append above _))
          ((safeAbove_pair h hstack habove hopens hcount hfloor).2 hsafe)]

/-- The close tags of a run. -/
def Emphasis.closeTagsAt (e : Emphasis) (u : Nat) : Nat := (e.piece u).closeTags.length

theorem closeTagsAt_pair (h : Ordered e u) (hs : s < u) :
    e.closeTagsAt u < (e.pair s u below).closeTagsAt u := by
  have htag : ∀ n, 0 < (closeTagOf n).length := by
    intro n
    unfold closeTagOf
    split <;> decide
  rw [Emphasis.closeTagsAt, Emphasis.closeTagsAt, piece_pair hs h.inside, if_pos rfl]
  dsimp only
  rw [List.length_append]
  exact Nat.lt_add_of_pos_right (htag _)

theorem closeTagsAt_close (floor : Nat) : ∀ (n : Nat) {e : Emphasis}, Ordered e u →
    e.closeTagsAt u ≤ (Emphasis.close floor u n e).1.closeTagsAt u := by
  intro n
  induction n with
  | zero => intro e _; exact Nat.le_refl _
  | succ n ih =>
    intro e h
    rw [Emphasis.close]
    split
    · exact Nat.le_refl _
    · cases hfind : e.findOpener (e.piece u) floor e.stack with
      | none => exact Nat.le_refl _
      | some r =>
        obtain ⟨s, below⟩ := r
        obtain ⟨hstack, -⟩ := findOpener_eq hfind
        have hs := h.before s (hstack.subset List.mem_cons_self)
        exact Nat.le_trans (Nat.le_of_lt (closeTagsAt_pair h hs)) (ih (h.pair hstack))

/-- **A floor that is not safe loses a close tag.** -/
theorem close_floor_lt : ∀ (n : Nat) {e : Emphasis}, Ordered e u → ¬SafeAbove floor e u →
    (e.piece u).count ≤ n →
    (Emphasis.close floor u n e).1.closeTagsAt u < (Emphasis.close 0 u n e).1.closeTagsAt u := by
  intro n
  induction n with
  | zero =>
    intro e _ hsafe hn
    exact absurd (Or.inl (Nat.le_trans hn (Nat.zero_le _))) hsafe
  | succ n ih =>
    intro e h hsafe hn
    have hcount : (e.piece u).count ≠ 0 := by
      intro hzero
      exact hsafe (Or.inl (by omega))
    rw [Emphasis.close, Emphasis.close, if_neg hcount, if_neg hcount]
    rcases search_cases e u with ⟨-, hnone⟩ | ⟨above, s, below, hstack, habove, hopens, hfind⟩
    · exact absurd (Or.inr fun t ht => hnone t (List.mem_of_mem_drop ht)) hsafe
    · have hsuffix : (s :: below) <:+ e.stack := hstack ▸ List.suffix_append above _
      have hs := h.before s (hsuffix.subset List.mem_cons_self)
      rw [hfind, hfind, if_pos (Nat.zero_le _)]
      by_cases hfloor : floor ≤ below.length
      · rw [if_pos hfloor]
        refine ih (h.pair hsuffix)
          (fun hsafe' => hsafe ((safeAbove_pair h hstack habove hopens hcount hfloor).1 hsafe')) ?_
        have hused : 0 < usedOf (e.piece s) (e.piece u) := by
          unfold usedOf
          split <;> decide
        rw [piece_pair hs h.inside, if_pos rfl]
        dsimp only
        omega
      · rw [if_neg hfloor]
        exact Nat.lt_of_lt_of_le (closeTagsAt_pair h hs) (closeTagsAt_close 0 n (h.pair hsuffix))

end Closer

/-! ## One piece and all -/

section Step
variable {e : Emphasis} {u : Nat}

theorem step_floor_eq (h : Ordered e u) (hsafe : FloorSafe e u) :
    e.step u = Emphasis.stepDownTo 0 e u := by
  rw [step_eq]
  unfold Emphasis.stepDownTo
  dsimp only
  cases hdelim : (e.piece u).delim with
  | false => rfl
  | true =>
    have hclosing : Emphasis.closing (e.floorFor u) e u = Emphasis.closing 0 e u := by
      unfold Emphasis.closing
      dsimp only
      cases hclose : (e.piece u).canClose with
      | false => rfl
      | true => rw [close_floor_eq _ h (hsafe hdelim hclose)]
    rw [hclosing]

/-- What a closer's tags are after its piece. -/
theorem closeTagsAt_step (floor : Nat) (hdelim : (e.piece u).delim = true)
    (hclose : (e.piece u).canClose = true) : (Emphasis.stepDownTo floor e u).closeTagsAt u =
      (Emphasis.close floor u (e.piece u).count e).1.closeTagsAt u := by
  have hclosing : (Emphasis.closing floor e u).pieces =
      (Emphasis.close floor u (e.piece u).count e).1.pieces := by
    unfold Emphasis.closing
    dsimp only
    rw [if_pos hclose]
    split <;> rfl
  have hpieces : (Emphasis.stepDownTo floor e u).pieces = (Emphasis.closing floor e u).pieces := by
    unfold Emphasis.stepDownTo
    dsimp only
    rw [hdelim, Bool.not_true, if_neg Bool.false_ne_true]
    split <;> rfl
  rw [Emphasis.closeTagsAt, Emphasis.closeTagsAt, Emphasis.piece, Emphasis.piece, hpieces, hclosing]

theorem step_floor_lt (h : Ordered e u) (hsafe : ¬FloorSafe e u) :
    (e.step u).closeTagsAt u < (Emphasis.stepDownTo 0 e u).closeTagsAt u := by
  unfold FloorSafe at hsafe
  push Not at hsafe
  obtain ⟨hdelim, hclose, hsafe⟩ := hsafe
  rw [step_eq, closeTagsAt_step _ hdelim hclose, closeTagsAt_step _ hdelim hclose]
  exact close_floor_lt _ h hsafe (Nat.le_refl _)

/-- The close tags of a run are those of its own piece's turn. -/
theorem closeTagsAt_earlier {t : Nat} (floor : Nat) (h : Ordered e u) (ht : t ≠ u) :
    (Emphasis.stepDownTo floor e u).closeTagsAt t = e.closeTagsAt t := by
  have hclose : ∀ (n : Nat) {e : Emphasis}, Ordered e u →
      (Emphasis.close floor u n e).1.closeTagsAt t = e.closeTagsAt t := by
    intro n
    induction n with
    | zero => intro e _; rfl
    | succ n ih =>
      intro e h
      rw [Emphasis.close]
      split
      · rfl
      · cases hfind : e.findOpener (e.piece u) floor e.stack with
        | none => rfl
        | some r =>
          obtain ⟨s, below⟩ := r
          obtain ⟨hstack, -⟩ := findOpener_eq hfind
          have hs := h.before s (hstack.subset List.mem_cons_self)
          dsimp only
          rw [ih (h.pair hstack), Emphasis.closeTagsAt, piece_pair hs h.inside, if_neg ht.symm]
          split
          · rename_i hst
            subst hst
            rfl
          · rfl
  have hclosing : (Emphasis.closing floor e u).closeTagsAt t = e.closeTagsAt t := by
    unfold Emphasis.closing
    dsimp only
    split
    · split
      · exact hclose _ h
      · exact hclose _ h
    · rfl
  unfold Emphasis.stepDownTo
  dsimp only
  split
  · rfl
  · split
    · exact hclosing
    · exact hclosing

end Step

section Run
variable {ps : List Piece}

/-- The loop up to piece `u`. -/
def emphasisRun (ps : List Piece) (u : Nat) : Emphasis :=
  (List.range u).foldl Emphasis.step { pieces := ps }

theorem emphasisRun_succ (u : Nat) : emphasisRun ps (u + 1) = (emphasisRun ps u).step u := by
  rw [emphasisRun, List.range_succ, List.foldl_append]
  rfl

theorem wholeStackRun_succ (u : Nat) :
    wholeStackRun ps (u + 1) = Emphasis.stepDownTo 0 (wholeStackRun ps u) u := by
  rw [wholeStackRun, List.range_succ, List.foldl_append]
  rfl

theorem ordered_emphasisRun {u : Nat} (hu : u < ps.length) : Ordered (emphasisRun ps u) u := by
  obtain ⟨pairs, h⟩ := EmphasisInv.run Emphasis.floorFor u (Nat.le_of_lt hu)
  exact h.ordered hu

theorem ordered_wholeStackRun {u : Nat} (hu : u < ps.length) : Ordered (wholeStackRun ps u) u := by
  obtain ⟨pairs, h⟩ := EmphasisInv.run (fun _ _ => 0) u (Nat.le_of_lt hu)
  exact h.ordered hu

theorem emphasisRun_eq {u : Nat} (hu : u ≤ ps.length)
    (hsafe : ∀ i < u, FloorSafe (wholeStackRun ps i) i) :
    emphasisRun ps u = wholeStackRun ps u := by
  induction u with
  | zero => rfl
  | succ u ih =>
    have hrun := ih (Nat.le_of_succ_le hu) fun i hi => hsafe i (Nat.lt_succ_of_lt hi)
    rw [emphasisRun_succ, wholeStackRun_succ, hrun]
    exact step_floor_eq (ordered_wholeStackRun hu) (hsafe u (Nat.lt_succ_self u))

theorem closeTagsAt_run {t u : Nat} (ht : t < u) (hu : u ≤ ps.length) :
    (emphasisRun ps u).closeTagsAt t = (emphasisRun ps (t + 1)).closeTagsAt t ∧
      (wholeStackRun ps u).closeTagsAt t = (wholeStackRun ps (t + 1)).closeTagsAt t := by
  induction u with
  | zero => cases ht
  | succ u ih =>
    by_cases htu : t = u
    · subst htu
      exact ⟨rfl, rfl⟩
    · obtain ⟨hcode, hwhole⟩ := ih (by omega) (Nat.le_of_succ_le hu)
      constructor
      · rw [emphasisRun_succ, step_eq, closeTagsAt_earlier _ (ordered_emphasisRun hu) htu, hcode]
      · rw [wholeStackRun_succ, closeTagsAt_earlier _ (ordered_wholeStackRun hu) htu, hwhole]

end Run

/-! ## The output says which tags each run has -/

/-- One delimiter or two. -/
def TagSizes (sizes : List Nat) : Prop := ∀ n ∈ sizes, n = 1 ∨ n = 2

section Unique

theorem sum_pos {n : Nat} {sizes : List Nat} (h : TagSizes (n :: sizes)) :
    0 < (n :: sizes).sum := by
  have hn := h n List.mem_cons_self
  rw [List.sum_cons]
  omega

theorem openTags_inj : ∀ {os os' : List Nat} {x y : Bytes}, TagSizes os → TagSizes os' →
    os.sum = os'.sum → os.flatMap openTagOf ++ x = os'.flatMap openTagOf ++ y →
    os = os' ∧ x = y := by
  intro os
  induction os with
  | nil =>
    intro os' x y _ hos' hsum h
    cases os' with
    | nil => exact ⟨rfl, h⟩
    | cons n os' => exact absurd hsum (Nat.ne_of_lt (sum_pos hos'))
  | cons m os ih =>
    intro os' x y hos hos' hsum h
    cases os' with
    | nil => exact absurd hsum.symm (Nat.ne_of_lt (sum_pos hos))
    | cons n os' =>
      rw [List.flatMap_cons, List.flatMap_cons, List.append_assoc, List.append_assoc] at h
      have hmn : m = n := by
        rcases hos m List.mem_cons_self with rfl | rfl <;>
          rcases hos' n List.mem_cons_self with rfl | rfl
        · rfl
        · exact absurd (congrArg (fun l => l[1]?) h) (by simp [openTagOf, ascii])
        · exact absurd (congrArg (fun l => l[1]?) h) (by simp [openTagOf, ascii])
        · rfl
      subst hmn
      have hrest := List.append_cancel_left h
      rw [List.sum_cons, List.sum_cons] at hsum
      obtain ⟨rfl, rfl⟩ := ih (fun k hk => hos k (List.mem_cons_of_mem m hk))
        (fun k hk => hos' k (List.mem_cons_of_mem m hk)) (by omega) hrest
      exact ⟨rfl, rfl⟩

theorem openTagOf_eq (n : Nat) : ∃ b tail, openTagOf n = 0x3C :: b :: tail ∧ b ≠ 0x2F := by
  unfold openTagOf
  split
  · exact ⟨_, _, rfl, by decide⟩
  · exact ⟨_, _, rfl, by decide⟩

theorem closeTagOf_eq (n : Nat) : ∃ tail, closeTagOf n = 0x3C :: 0x2F :: tail := by
  unfold closeTagOf
  split
  · exact ⟨_, rfl⟩
  · exact ⟨_, rfl⟩

/-- What is left of a run, and its open tags. -/
def runTail (ch : UInt8) (count : Nat) (os : List Nat) : Bytes :=
  List.replicate count ch ++ os.flatMap openTagOf

theorem runTail_inj {ch : UInt8} (hch : ch ≠ 0x3C) :
    ∀ {m m' : Nat} {os os' : List Nat} {x y : Bytes},
    TagSizes os → TagSizes os' → m + os.sum = m' + os'.sum →
    runTail ch m os ++ x = runTail ch m' os' ++ y → m = m' ∧ os = os' ∧ x = y := by
  -- a run that has no literal delimiter left differs at once from one that has
  have hzero : ∀ {m' : Nat} {os os' : List Nat} {x y : Bytes}, TagSizes os →
      0 + os.sum = m' + 1 + os'.sum → runTail ch 0 os ++ x ≠ runTail ch (m' + 1) os' ++ y := by
    intro m' os os' x y hos hsum h
    cases os with
    | nil => rw [List.sum_nil] at hsum; omega
    | cons n os =>
      obtain ⟨b, tail, htag, -⟩ := openTagOf_eq n
      have hhead := congrArg List.head? h
      simp only [runTail, List.replicate_zero, List.nil_append, List.flatMap_cons, htag,
        List.cons_append, List.head?_cons, List.replicate_succ, Option.some.injEq] at hhead
      exact hch hhead.symm
  intro m
  induction m with
  | zero =>
    intro m' os os' x y hos hos' hsum h
    cases m' with
    | zero => exact ⟨rfl, openTags_inj hos hos' (by omega) (by simpa [runTail] using h)⟩
    | succ m' => exact absurd h (hzero hos hsum)
  | succ m ih =>
    intro m' os os' x y hos hos' hsum h
    cases m' with
    | zero => exact absurd h.symm (hzero hos' hsum.symm)
    | succ m' =>
      simp only [runTail, List.replicate_succ, List.cons_append, List.cons.injEq, true_and] at h
      obtain ⟨hm, hrest⟩ := ih hos hos' (by omega) h
      exact ⟨congrArg (· + 1) hm, hrest⟩

/-- A run's close tags, its literal delimiters and its open tags can be read
off the output, whatever follows, as they stand for as many delimiters as the
run had. -/
theorem run_inj {ch : UInt8} (hch : ch ≠ 0x3C) : ∀ {cs cs' : List Nat} {m m' : Nat}
    {os os' : List Nat} {x y : Bytes}, TagSizes cs → TagSizes cs' → TagSizes os → TagSizes os' →
    cs.sum + (m + os.sum) = cs'.sum + (m' + os'.sum) →
    cs.flatMap closeTagOf ++ (runTail ch m os ++ x) =
      cs'.flatMap closeTagOf ++ (runTail ch m' os' ++ y) → cs = cs' ∧ x = y := by
  -- a run without close tags differs at once from one with some
  have hnil : ∀ {n : Nat} {cs' : List Nat} {m m' : Nat} {os os' : List Nat} {x y : Bytes},
      TagSizes os → TagSizes (n :: cs') →
      ([] : List Nat).sum + (m + os.sum) = (n :: cs').sum + (m' + os'.sum) →
      runTail ch m os ++ x ≠ (n :: cs').flatMap closeTagOf ++ (runTail ch m' os' ++ y) := by
    intro n cs' m m' os os' x y hos hcs' hsum h
    have hpos := sum_pos hcs'
    obtain ⟨tail, htag⟩ := closeTagOf_eq n
    rw [List.flatMap_cons, htag] at h
    cases m with
    | succ m =>
      have hhead := congrArg List.head? h
      simp only [runTail, List.replicate_succ, List.cons_append, List.head?_cons,
        Option.some.injEq] at hhead
      exact hch hhead
    | zero =>
      cases os with
      | nil => rw [List.sum_nil] at hsum; omega
      | cons k os =>
        obtain ⟨b, rest, hopen, hb⟩ := openTagOf_eq k
        have hsecond := congrArg (fun l => l[1]?) h
        simp only [runTail, List.replicate_zero, List.nil_append, List.flatMap_cons, hopen,
          List.cons_append, List.getElem?_cons_succ, List.getElem?_cons_zero,
          Option.some.injEq] at hsecond
        exact hb hsecond
  intro cs
  induction cs with
  | nil =>
    intro cs' m m' os os' x y _ hcs' hos hos' hsum h
    cases cs' with
    | nil => exact ⟨rfl, (runTail_inj hch hos hos' (by simpa using hsum) h).2.2⟩
    | cons n cs' => exact absurd h (hnil hos hcs' hsum)
  | cons k cs ih =>
    intro cs' m m' os os' x y hcs hcs' hos hos' hsum h
    cases cs' with
    | nil => exact absurd h.symm (hnil hos' hcs hsum.symm)
    | cons n cs' =>
      rw [List.flatMap_cons, List.flatMap_cons, List.append_assoc, List.append_assoc] at h
      have hkn : k = n := by
        rcases hcs k List.mem_cons_self with rfl | rfl <;>
          rcases hcs' n List.mem_cons_self with rfl | rfl
        · rfl
        · exact absurd (congrArg (fun l => l[2]?) h) (by simp [closeTagOf, ascii])
        · exact absurd (congrArg (fun l => l[2]?) h) (by simp [closeTagOf, ascii])
        · rfl
      subst hkn
      rw [List.sum_cons, List.sum_cons] at hsum
      obtain ⟨rfl, rfl⟩ := ih (fun j hj => hcs j (List.mem_cons_of_mem k hj))
        (fun j hj => hcs' j (List.mem_cons_of_mem k hj)) hos hos' (by omega)
        (List.append_cancel_left h)
      exact ⟨rfl, rfl⟩

/-- A piece with tags for some of its delimiters. -/
structure Marked (p q : Piece) : Prop where
  delim_eq : q.delim = p.delim
  html_eq : q.html = p.html
  ch_eq : q.ch = p.ch
  tags : ∃ cs os, TagSizes cs ∧ TagSizes os ∧ q.closeTags = cs.flatMap closeTagOf ∧
    q.openTags = os.flatMap openTagOf ∧ p.count = cs.sum + (q.count + os.sum)

theorem marked_inj {p q q' : Piece} {x y : Bytes} (hch : p.ch ≠ 0x3C) (hq : Marked p q)
    (hq' : Marked p q') (h : q.render ++ x = q'.render ++ y) :
    x = y ∧ (p.delim = true → q.closeTags = q'.closeTags) := by
  obtain ⟨hd, hh, hc, cs, os, hcs, hos, hct, hot, hsum⟩ := hq
  obtain ⟨hd', hh', hc', cs', os', hcs', hos', hct', hot', hsum'⟩ := hq'
  unfold Piece.render at h
  cases hdelim : p.delim with
  | false =>
    rw [hd, hd', hdelim, hh, hh'] at h
    exact ⟨List.append_cancel_left h, nofun⟩
  | true =>
    rw [hd, hd', hdelim, hct, hct', hot, hot', hc, hc', Bool.not_true,
      if_neg Bool.false_ne_true, if_neg Bool.false_ne_true] at h
    simp only [List.append_assoc] at h
    obtain ⟨hcs, hxy⟩ := run_inj hch hcs hcs' hos hos' (hsum.symm.trans hsum')
      (by simpa [runTail] using h)
    exact ⟨hxy, fun _ => by rw [hct, hct', hcs]⟩

/-- Two ways to mark the same pieces that render alike give each run the same
close tags. -/
theorem rendered_inj : ∀ {ps : List Piece} {f g : Nat → Piece → Piece},
    (∀ i p, ps[i]? = some p → p.ch ≠ 0x3C ∧ Marked p (f i p) ∧ Marked p (g i p)) →
    (ps.mapIdx f).flatMap Piece.render = (ps.mapIdx g).flatMap Piece.render →
    ∀ i p, ps[i]? = some p → p.delim = true → (f i p).closeTags = (g i p).closeTags := by
  intro ps
  induction ps with
  | nil => intro f g _ _ i p hp; cases hp
  | cons q ps ih =>
    intro f g hmarked h i p hp hdelim
    rw [List.mapIdx_cons, List.mapIdx_cons, List.flatMap_cons, List.flatMap_cons] at h
    obtain ⟨hch, hf, hg⟩ := hmarked 0 q rfl
    obtain ⟨hrest, htags⟩ := marked_inj hch hf hg h
    cases i with
    | zero =>
      obtain rfl := Option.some.inj hp
      exact htags hdelim
    | succ i => exact ih (fun j r hr => hmarked (j + 1) r hr) hrest i p hp hdelim

theorem EmphasisInv.marked {ps : List Piece} {pairs : List EmphasisPair} {e : Emphasis} {u i : Nat}
    {p : Piece} (h : EmphasisInv ps pairs e u) (hp : ps[i]? = some p) (hfresh : p.Fresh) :
    Marked p (p.marked pairs i) := by
  have hsizes : ∀ l : List EmphasisPair, (∀ m ∈ l, m ∈ pairs) →
    TagSizes (l.map EmphasisPair.used) := by
    intro l hl n hn
    obtain ⟨m, hm, rfl⟩ := List.mem_map.1 hn
    exact (h.sound m (hl m hm)).used_eq
  have hkept := h.kept i p hp
  refine ⟨rfl, rfl, rfl, (closesAt pairs i).map EmphasisPair.used,
    (opensAt pairs i).map EmphasisPair.used, hsizes _ ?_, hsizes _ ?_, ?_, ?_, ?_⟩
  · exact fun m hm => List.mem_of_mem_filter hm
  · exact fun m hm => List.mem_of_mem_filter (List.mem_reverse.1 hm)
  · rw [List.flatMap_map, Piece.marked, hfresh.no_close]
    rfl
  · rw [List.flatMap_map, Piece.marked, hfresh.no_open]
    exact List.append_nil _
  · unfold consumed at hkept
    simp only [Piece.marked, consumed]
    omega

end Unique

/-! ## A paragraph -/

/-- **The floor is only an optimisation exactly where it is safe.** A
paragraph renders as it does when every closer searches the whole stack if
and only if, in that run, the openers above each closer's floor use the
closer up or nothing below the floor fits. -/
theorem renderParagraph_wholeStack_iff (text : Bytes) :
    renderParagraph text = renderWholeStack text ↔
      ∀ i < (pieces text).length, FloorSafe (wholeStackRun (pieces text) i) i := by
  have hcode : renderParagraph text =
      (emphasisRun (pieces text) (pieces text).length).pieces.flatMap Piece.render := rfl
  constructor
  · intro h
    obtain ⟨pairs, hinv⟩ := EmphasisInv.run Emphasis.floorFor (pieces text).length (Nat.le_refl _)
    obtain ⟨pairs', hinv'⟩ := EmphasisInv.run (fun _ _ => 0) (pieces text).length (Nat.le_refl _)
    have heq : (emphasisRun (pieces text) (pieces text).length).pieces =
        (pieces text).mapIdx (Piece.marked pairs) := hinv.pieces_eq
    have heq' : (wholeStackRun (pieces text) (pieces text).length).pieces =
        (pieces text).mapIdx (Piece.marked pairs') := hinv'.pieces_eq
    rw [hcode, renderWholeStack, heq, heq'] at h
    have htags := rendered_inj (fun i p hp => by
      have hfresh := pieces_fresh text p (List.mem_of_getElem? hp)
      exact ⟨hfresh.ch_ne, hinv.marked hp hfresh, hinv'.marked hp hfresh⟩) h
    -- the first closer whose floor is not safe has different close tags ever after
    have hall : ∀ u ≤ (pieces text).length,
      ∀ i < u, FloorSafe (wholeStackRun (pieces text) i) i := by
      intro u
      induction u with
      | zero => intro _ i hi; cases hi
      | succ u ih =>
        intro hu i hi
        have hbefore := ih (Nat.le_of_succ_le hu)
        by_cases hiu : i < u
        · exact hbefore i hiu
        · obtain rfl : i = u := by omega
          by_contra hunsafe
          have hp : (pieces text)[i]? = some (pieces text)[i] := List.getElem?_eq_getElem hu
          have hdelim : (pieces text)[i].delim = true := by
            obtain ⟨before, hbefore⟩ := EmphasisInv.run (fun _ _ => 0) i (Nat.le_of_succ_le hu)
            have hpiece : (wholeStackRun (pieces text) i).piece i = _ := hbefore.piece hp
            rw [FloorSafe, Classical.not_imp, hpiece] at hunsafe
            exact hunsafe.1
          have hrun := emphasisRun_eq (Nat.le_of_succ_le hu) hbefore
          have hlt := step_floor_lt (ordered_wholeStackRun hu) hunsafe
          rw [← wholeStackRun_succ, ← hrun, ← emphasisRun_succ,
            ← (closeTagsAt_run (Nat.lt_of_succ_le hu) (Nat.le_refl _)).1,
            ← (closeTagsAt_run (Nat.lt_of_succ_le hu) (Nat.le_refl _)).2] at hlt
          have hpiece : (emphasisRun (pieces text) (pieces text).length).piece i = _ :=
            hinv.piece hp
          have hpiece' : (wholeStackRun (pieces text) (pieces text).length).piece i = _ :=
            hinv'.piece hp
          rw [Emphasis.closeTagsAt, Emphasis.closeTagsAt, hpiece, hpiece',
            htags i _ hp hdelim] at hlt
          exact Nat.lt_irrefl _ hlt
    exact hall (pieces text).length (Nat.le_refl _)
  · intro hsafe
    rw [hcode, renderWholeStack, emphasisRun_eq (Nat.le_refl _) hsafe]

/-- A closer of '_' that finds nothing records a stack of three; two '*' pairs
later the stack is lower, and the opener for the next '_' stands below the
height recorded. -/
theorem renderParagraph_floor_hides :
    renderParagraph (ascii "*a *b *c d_ e* f* _g h_") ≠
      renderWholeStack (ascii "*a *b *c d_ e* f* _g h_") := by
  decide

end VlmConvert.L1

import VlmConvert.L1Text.MarkdownInline

/-!
# Texts whose only tags are inline ones

`tagRun` reads a text byte by byte and fails at a '<' that does not open an
inline formatting tag without attributes. A text is `Whole` when it reads from
outside a tag to outside a tag, and `Inline` when it is a piece of such a text:
every '<' in it opens an inline tag, which may be cut at the end.

Results:
* `whole_unescape`: unescaping Markdown keeps a text whole.
* `whole_renderLines`: whatever a piece of inline text is rendered to is whole.
-/
namespace VlmConvert.L1

open Bytes

/-- The tags that pass through, and the paragraph. -/
def inlineNames : List Bytes :=
  ["b", "br", "code", "em", "i", "strong", "sub", "sup", "u", "p"].map ascii

def isInlineName (name : Bytes) : Bool := inlineNames.contains (name.map toLower)

/-- Where in a tag a text stands. -/
inductive TagState
  | outside | opened | slashed | name (n : Bytes) | spaces | closing
  deriving DecidableEq, Repr

/-- Behind the name: blanks, then '>' or "/>". -/
def tagEnd (c : UInt8) : Option TagState :=
  if isSpace c then some .spaces
  else if c == 0x2F then some .closing
  else if c == 0x3E then some .outside
  else none

def tagStep : TagState → UInt8 → Option TagState
  | .outside, c => some (if c == 0x3C then .opened else .outside)
  | .opened, c =>
    if c == 0x2F then some .slashed else if isAlpha c then some (.name [c]) else none
  | .slashed, c => if isAlpha c then some (.name [c]) else none
  | .name n, c =>
    if isAlpha c then some (.name (n ++ [c])) else if isInlineName n then tagEnd c else none
  | .spaces, c => tagEnd c
  | .closing, c => if c == 0x3E then some .outside else none

def tagRun : TagState → Bytes → Option TagState
  | s, [] => some s
  | s, c :: l => (tagStep s c).bind (tagRun · l)

def Whole (l : Bytes) : Prop := tagRun .outside l = some .outside

instance (l : Bytes) : Decidable (Whole l) := inferInstanceAs (Decidable (_ = _))

def Inline (l : Bytes) : Prop := ∃ s, (tagRun s l).isSome

/-! ## Reading a text -/

theorem tagRun_append (a b : Bytes) : ∀ s, tagRun s (a ++ b) = (tagRun s a).bind (tagRun · b) := by
  induction a with
  | nil => intro s; rfl
  | cons c a ih =>
    intro s
    rw [List.cons_append, tagRun, tagRun]
    cases tagStep s c with
    | none => rfl
    | some s' => exact ih s'

theorem whole_nil : Whole [] := rfl

theorem Whole.append {a b : Bytes} (ha : Whole a) (hb : Whole b) : Whole (a ++ b) := by
  rw [Whole, tagRun_append, ha]
  exact hb

theorem Whole.inline {l : Bytes} (h : Whole l) : Inline l := ⟨.outside, by rw [h]; rfl⟩

theorem whole_of_notMem {l : Bytes} (h : 0x3C ∉ l) : Whole l := by
  induction l with
  | nil => rfl
  | cons c l ih =>
    simp only [List.mem_cons, not_or] at h
    have hc : (c == 0x3C) = false := beq_eq_false_iff_ne.2 (Ne.symm h.1)
    rw [Whole, tagRun, tagStep, hc]
    exact ih h.2

theorem whole_flatMap {α : Type} {f : α → Bytes} (l : List α) (h : ∀ x ∈ l, Whole (f x)) :
    Whole (l.flatMap f) := by
  induction l with
  | nil => rfl
  | cons x l ih =>
    rw [List.flatMap_cons]
    exact (h x List.mem_cons_self).append (ih fun y hy => h y (List.mem_cons_of_mem _ hy))

theorem Inline.of_append {a b : Bytes} (h : Inline (a ++ b)) : Inline a ∧ Inline b := by
  obtain ⟨s, hs⟩ := h
  rw [tagRun_append] at hs
  cases ha : tagRun s a with
  | none => rw [ha] at hs; cases hs
  | some s' =>
    rw [ha] at hs
    exact ⟨⟨s, by rw [ha]; rfl⟩, ⟨s', hs⟩⟩

theorem Inline.of_part {a l : Bytes} (h : Inline l) (ha : a <:+: l) : Inline a := by
  obtain ⟨x, y, rfl⟩ := ha
  exact (h.of_append.1).of_append.2

/-- Only outside a tag a '<' can stand. -/
theorem tagStep_lt {s : TagState} (h : (tagStep s 0x3C).isSome = true) : s = .outside := by
  cases s with
  | outside => rfl
  | opened => cases h
  | slashed => cases h
  | name n =>
    rw [tagStep, if_neg (by decide)] at h
    split at h
    · cases h
    · cases h
  | spaces => cases h
  | closing => cases h

theorem Inline.opened {l : Bytes} (h : Inline (0x3C :: l)) : (tagRun .opened l).isSome = true := by
  obtain ⟨s, hs⟩ := h
  rw [tagRun] at hs
  cases hstep : tagStep s 0x3C with
  | none => rw [hstep] at hs; cases hs
  | some s' =>
    have hout := tagStep_lt (by rw [hstep]; rfl)
    subst hout
    cases hstep
    exact hs

/-- A byte that stands in no tag. -/
def isSpecial (c : UInt8) : Bool :=
  !(isAlpha c || isSpace c || c == 0x2F || c == 0x3E || c == 0x3C)

theorem tagStep_special {s s' : TagState} {c : UInt8} (hc : isSpecial c = true)
    (h : tagStep s c = some s') : s = .outside ∧ s' = .outside := by
  simp only [isSpecial, Bool.not_eq_true', Bool.or_eq_false_iff] at hc
  obtain ⟨⟨⟨⟨halpha, hspace⟩, hslash⟩, hgt⟩, hlt⟩ := hc
  cases s with
  | outside =>
    rw [tagStep, hlt] at h
    cases h
    exact ⟨rfl, rfl⟩
  | opened => simp [tagStep, halpha, hslash] at h
  | slashed => simp [tagStep, halpha] at h
  | name n => simp [tagStep, tagEnd, halpha, hspace, hslash, hgt] at h
  | spaces => simp [tagStep, tagEnd, hspace, hslash, hgt] at h
  | closing => simp [tagStep, hgt] at h

/-- A text is outside a tag before and behind such a byte. -/
theorem tagRun_special {s s' : TagState} {c : UInt8} (hc : isSpecial c = true) {l : Bytes}
    (h : tagRun s (c :: l) = some s') : s = .outside ∧ tagRun .outside l = some s' := by
  rw [tagRun] at h
  cases hstep : tagStep s c with
  | none => rw [hstep] at h; cases h
  | some s'' =>
    rw [hstep] at h
    obtain ⟨rfl, rfl⟩ := tagStep_special hc hstep
    exact ⟨rfl, h⟩

theorem tagRun_split_special {s s' : TagState} {c : UInt8} (hc : isSpecial c = true) {a l : Bytes}
    (h : tagRun s (a ++ c :: l) = some s') :
    tagRun s (a ++ [c]) = some .outside ∧ tagRun .outside l = some s' := by
  rw [tagRun_append] at h
  cases ha : tagRun s a with
  | none => rw [ha] at h; cases h
  | some s'' =>
    rw [ha] at h
    obtain ⟨rfl, hl⟩ := tagRun_special hc h
    refine ⟨?_, hl⟩
    have hlt : (c == 0x3C) = false := by
      simp only [isSpecial, Bool.not_eq_true', Bool.or_eq_false_iff] at hc
      exact hc.2
    rw [tagRun_append, ha]
    show (tagStep .outside c).bind (tagRun · []) = some .outside
    rw [tagStep, hlt]
    rfl

/-! ## Blanks at the ends -/

theorem Whole.of_snoc {l : Bytes} {c : UInt8} (hc : isSpace c = true) (h : Whole (l ++ [c])) :
    Whole l := by
  rw [Whole, tagRun_append] at h
  cases hl : tagRun .outside l with
  | none => rw [hl] at h; cases h
  | some s =>
    rw [hl] at h
    have hstep : tagStep s c = some .outside := by
      have h' : (tagStep s c).bind (tagRun · []) = some .outside := h
      obtain ⟨s', hs', he⟩ := Option.bind_eq_some_iff.1 h'
      cases he
      exact hs'
    have halpha : isAlpha c = false := by
      simp only [isSpace, Bool.or_eq_true, Bool.and_eq_true, beq_iff_eq, decide_eq_true_eq,
        UInt8.le_iff_toNat_le] at hc
      simp only [isAlpha, Bool.or_eq_false_iff, Bool.and_eq_false_iff, decide_eq_false_iff_not,
        UInt8.le_iff_toNat_le]
      rcases hc with rfl | hc
      · decide
      · simp at hc ⊢
        omega
    have hslash : (c == 0x2F) = false := by
      rw [beq_eq_false_iff_ne]
      rintro rfl
      cases hc
    have hgt : (c == 0x3E) = false := by
      rw [beq_eq_false_iff_ne]
      rintro rfl
      cases hc
    cases s with
    | outside => exact hl
    | opened => simp [tagStep, halpha, hslash] at hstep
    | slashed => simp [tagStep, halpha] at hstep
    | name n => simp [tagStep, tagEnd, halpha, hc] at hstep
    | spaces => simp [tagStep, tagEnd, hc] at hstep
    | closing => simp [tagStep, hgt] at hstep

theorem Whole.rdropWhile {p : UInt8 → Bool} (hp : ∀ c, p c = true → isSpace c = true) {l : Bytes}
    (h : Whole l) : Whole (l.rdropWhile p) := by
  induction l using List.reverseRecOn with
  | nil => exact h
  | append_singleton l c ih =>
    rw [List.rdropWhile_concat]
    split
    · rename_i hc
      exact ih (h.of_snoc (hp c hc))
    · exact h

theorem Whole.of_cons {c : UInt8} (hc : c ≠ 0x3C) {l : Bytes} (h : Whole (c :: l)) : Whole l := by
  rw [Whole, tagRun, tagStep, beq_eq_false_iff_ne.2 hc] at h
  exact h

theorem Whole.dropWhile {p : UInt8 → Bool} (hp : p 0x3C = false) {l : Bytes} (h : Whole l) :
    Whole (l.dropWhile p) := by
  induction l with
  | nil => exact h
  | cons c l ih =>
    rw [List.dropWhile_cons]
    split
    · rename_i hc
      refine ih (h.of_cons ?_)
      rintro rfl
      rw [hp] at hc
      cases hc
    · exact h

theorem Whole.trim {l : Bytes} (h : Whole l) : Whole (trim l) :=
  (h.dropWhile rfl).rdropWhile fun _ => isSpace_of_isBlank

/-! ## Escaped text -/

theorem notMem_escapeInto (text : Bytes) : 0x3C ∉ escapeInto text := by
  intro h
  obtain ⟨c, -, hc⟩ := List.mem_flatMap.1 h
  unfold escapeByte at hc
  split at hc
  · revert hc; decide
  · split at hc
    · revert hc; decide
    · rename_i hlt
      split at hc
      · revert hc; decide
      · split at hc
        · revert hc; decide
        · exact hlt (beq_iff_eq.2 (List.mem_singleton.1 hc).symm)

theorem whole_escapeInto (text : Bytes) : Whole (escapeInto text) :=
  whole_of_notMem (notMem_escapeInto text)

theorem whole_escapeByte (c : UInt8) : Whole (escapeByte c) := by
  have h := whole_escapeInto [c]
  rwa [escapeInto, List.flatMap_singleton] at h

/-! ## Raw tags -/

theorem tagEnd_outside {c : UInt8} {s : TagState} (h : tagEnd c = some s) :
    s = .outside ↔ c = 0x3E := by
  unfold tagEnd at h
  split at h
  · rename_i hspace
    cases h
    refine ⟨(fun h => nomatch h), ?_⟩
    rintro rfl
    cases hspace
  · split at h
    · rename_i hslash
      cases h
      rw [beq_iff_eq.1 hslash]
      decide
    · split at h
      · rename_i hgt
        cases h
        exact ⟨fun _ => beq_iff_eq.1 hgt, fun _ => rfl⟩
      · cases h

/-- A tag ends with its '>'. -/
theorem tagStep_outside {s s' : TagState} {c : UInt8} (hs : s ≠ .outside)
    (h : tagStep s c = some s') :
    s' = .outside ↔ c = 0x3E := by
  have hname : ∀ n, isAlpha c = true → some (TagState.name n) = some s' →
    (s' = .outside ↔ c = 0x3E) := by
    intro n halpha he
    cases he
    refine ⟨(fun h => nomatch h), ?_⟩
    rintro rfl
    cases halpha
  cases s with
  | outside => exact absurd rfl hs
  | opened =>
    rw [tagStep] at h
    split at h
    · rename_i hslash
      cases h
      rw [beq_iff_eq.1 hslash]
      decide
    · split at h
      · exact hname _ (by assumption) h
      · cases h
  | slashed =>
    rw [tagStep] at h
    split at h
    · exact hname _ (by assumption) h
    · cases h
  | name n =>
    rw [tagStep] at h
    split at h
    · exact hname _ (by assumption) h
    · split at h
      · exact tagEnd_outside h
      · cases h
  | spaces => exact tagEnd_outside h
  | closing =>
    rw [tagStep] at h
    split at h
    · rename_i hgt
      cases h
      exact ⟨fun _ => beq_iff_eq.1 hgt, fun _ => rfl⟩
    · cases h

/-- Inside a tag, the scan for its '>' ends with the tag. -/
theorem tagScan_whole :
    ∀ {l body left : Bytes} {s : TagState}, s ≠ .outside → (tagRun s l).isSome = true →
    tagScan none l = some (body, left) → tagRun s body = some .outside := by
  intro l
  induction l with
  | nil => intro body left s _ _ h; cases h
  | cons c l ih =>
    intro body left s hs hrun h
    rw [tagRun] at hrun
    cases hstep : tagStep s c with
    | none => rw [hstep] at hrun; cases hrun
    | some s' =>
      rw [hstep] at hrun
      have hend := tagStep_outside hs hstep
      -- a quote stands in no tag
      have hquote : isSpecial c = false := by
        rw [← Bool.not_eq_true]
        intro hc
        exact hs (tagStep_special hc hstep).1
      have hq : (c == 0x22 || c == 0x27) = false := by
        rw [Bool.or_eq_false_iff, beq_eq_false_iff_ne, beq_eq_false_iff_ne]
        constructor
        · rintro rfl; cases hquote
        · rintro rfl; cases hquote
      rw [tagScan, hq] at h
      by_cases hgt : (c == 0x3E) = true
      · rw [if_neg (by decide), if_pos hgt] at h
        cases h
        rw [tagRun, hstep, hend.2 (beq_iff_eq.1 hgt)]
        rfl
      · rw [if_neg (by decide), if_neg hgt] at h
        split at h
        · cases h
        · obtain ⟨⟨body', left'⟩, hscan, he⟩ := Option.map_eq_some_iff.1 h
          cases he
          rw [tagRun, hstep]
          exact ih (fun he => hgt (beq_iff_eq.2 (hend.1 he))) hrun hscan

theorem htmlTagEnd_whole {l tag left : Bytes} (h : Inline l)
    (htag : htmlTagEnd l = some (tag, left)) :
    Whole tag := by
  unfold htmlTagEnd at htag
  split at htag
  · cases htag
  · rename_i c rest
    split at htag
    · cases htag
    · rename_i hlt
      have hc : c = 0x3C := by simpa using hlt
      subst hc
      have hrun := h.opened
      have hscanned : ∀ (slash : Bytes) (s : TagState), tagRun .opened slash = some s →
        s ≠ .outside →
          rest = slash ++ rest.drop slash.length →
          (if (rest.drop slash.length).head?.any isAlpha then
            (tagScan none (rest.drop slash.length)).map fun r => (0x3C :: slash ++ r.1, r.2)
          else none) = some (tag, left) → Whole tag := by
        intro slash s hslash hs hrest hmatch
        split at hmatch
        · obtain ⟨⟨body, left'⟩, hscan, he⟩ := Option.map_eq_some_iff.1 hmatch
          cases he
          rw [hrest, tagRun_append, hslash] at hrun
          show tagRun .opened (slash ++ body) = some .outside
          rw [tagRun_append, hslash]
          exact tagScan_whole hs hrun hscan
        · cases hmatch
      cases hslash : rest.head? == some 0x2F with
      | true =>
        rw [hslash] at htag
        refine hscanned [0x2F] .slashed rfl (by decide) ?_ htag
        cases rest with
        | nil => cases hslash
        | cons d rest =>
          rw [List.head?_cons, Option.some_beq_some] at hslash
          rw [beq_iff_eq.1 hslash]
          rfl
      | false =>
        rw [hslash] at htag
        exact hscanned [] .opened rfl (by decide) rfl htag

/-! ## Literal code elements -/

theorem toLower_alpha (b : UInt8) : isAlpha (toLower b) = isAlpha b := by
  have hall : ∀ n : Fin 256, isAlpha (toLower (UInt8.ofFin n)) = isAlpha (UInt8.ofFin n) := by
    decide +kernel
  exact hall b.toFin

theorem toLower_eq {b x : UInt8} (hx : isAlpha x = false) (h : toLower b = x) : b = x := by
  subst h
  rw [toLower_alpha] at hx
  simp only [isAlpha, Bool.or_eq_false_iff] at hx
  rw [toLower, if_neg (by rw [hx.1]; decide)]

/-- An exact close tag in any case. -/
theorem whole_closeCode {v : Bytes} (h : v.map toLower = ascii "</code>") : Whole v := by
  have hlength : v.length = 7 := by rw [← List.length_map (f := toLower), h]; rfl
  match v, hlength with
  | [v0, v1, v2, v3, v4, v5, v6], _ =>
    have hlist : [toLower v0, toLower v1, toLower v2, toLower v3, toLower v4, toLower v5,
      toLower v6] = [0x3C, 0x2F, 0x63, 0x6F, 0x64, 0x65, 0x3E] := h
    simp only [List.cons.injEq, and_true] at hlist
    obtain ⟨h0, h1, h2, h3, h4, h5, h6⟩ := hlist
    have halpha : ∀ b x, isAlpha x = true → toLower b = x → isAlpha b = true := by
      intro b x hx hb
      rw [← toLower_alpha, hb]
      exact hx
    have hname : isInlineName [v2, v3, v4, v5] = true := by
      simp only [isInlineName, List.map_cons, List.map_nil, h2, h3, h4, h5]
      decide
    rw [toLower_eq rfl h0, toLower_eq rfl h1, toLower_eq rfl h6]
    have hslash : isAlpha v2 = true := halpha v2 _ rfl h2
    have hrun : tagRun .slashed [v2, v3, v4, v5] = some (.name [v2, v3, v4, v5]) := by
      simp [tagRun, tagStep, hslash, halpha v3 _ rfl h3, halpha v4 _ rfl h4, halpha v5 _ rfl h5]
    show tagRun .slashed ([v2, v3, v4, v5] ++ [0x3E]) = some .outside
    rw [tagRun_append, hrun]
    show (tagStep (.name [v2, v3, v4, v5]) 0x3E).bind (tagRun · []) = some .outside
    rw [tagStep, if_neg (by decide), hname]
    rfl

theorem codeElement_eq {l text left : Bytes} (h : codeElement l = some (text, left)) :
    l = text ++ left ∧ l.head? = some 0x3C ∧
      ∃ before v, text = before ++ v ∧ v.map toLower = ascii "</code>" := by
  unfold codeElement at h
  split at h
  · rename_i hcond
    obtain ⟨hhead, -⟩ := Bool.and_eq_true_iff.1 hcond
    split at h
    · cases h
    · rename_i before gt hgt
      split at h
      · cases h
      · rename_i inside close hclose
        cases h
        refine ⟨(List.take_append_drop _ l).symm, ?_, l.take (before.length + inside.length),
          (l.drop (before.length + inside.length)).take 7, ?_, ?_⟩
        · cases l with
          | nil => cases hhead
          | cons c l =>
            have hc : toLower c = 0x3C := Option.some.inj (congrArg List.head? (beq_iff_eq.1 hhead))
            rw [toLower_eq rfl hc]
            rfl
        · rw [List.take_add]
        · have hlower : l.map toLower = before ++ (inside ++ close) := by
            rw [← findSub_eq hclose, ← (findByte_eq hgt).1]
          rw [List.map_take, List.map_drop, hlower, ← List.append_assoc, ← List.length_append,
            List.drop_left]
          obtain ⟨more, hmore⟩ := findSub_starts hclose
          rw [← hmore]
          exact @List.take_left _ (ascii "</code>") more
  · cases h

theorem codeElement_whole {l text left : Bytes} (h : Inline l)
    (hcode : codeElement l = some (text, left)) :
    Whole text := by
  obtain ⟨heq, hhead, before, v, rfl, hv⟩ := codeElement_eq hcode
  obtain ⟨c, v', rfl⟩ : ∃ c v', v = c :: v' := by
    cases v with
    | nil => cases hv
    | cons c v' => exact ⟨c, v', rfl⟩
  have hc : c = 0x3C := toLower_eq rfl (Option.some.inj (congrArg List.head? hv))
  have hrun : (tagRun .outside l).isSome = true := by
    cases l with
    | nil => cases hhead
    | cons d l =>
      cases hhead
      exact h.opened
  rw [heq, List.append_assoc, tagRun_append] at hrun
  cases hbefore : tagRun .outside before with
  | none => rw [hbefore] at hrun; cases hrun
  | some s =>
    -- the close tag starts outside a tag
    have hout : s = .outside := by
      rw [hbefore, Option.bind_some, List.cons_append, tagRun, hc] at hrun
      refine tagStep_lt ?_
      cases hstep : tagStep s 0x3C with
      | none => rw [hstep] at hrun; cases hrun
      | some s' => rfl
    rw [Whole, tagRun_append, hbefore, hout]
    exact whole_closeCode hv

/-! ## Tokens -/

theorem unescapedFind_eq {needle : Bytes} : ∀ {l before rest : Bytes} {prev : UInt8},
    unescapedFind needle prev l = some (before, rest) → l = before ++ rest := by
  intro l
  induction l with
  | nil => intro before rest prev h; cases h
  | cons c l ih =>
    intro before rest prev h
    rw [unescapedFind] at h
    split at h
    · cases h; rfl
    · obtain ⟨⟨before', rest'⟩, hfind, he⟩ := Option.map_eq_some_iff.1 h
      cases he
      rw [ih hfind]
      rfl

theorem dollarEnd_eq : ∀ {l math rest : Bytes} {prev : UInt8},
    dollarEnd prev l = some (math, rest) → l = math ++ rest := by
  intro l
  induction l with
  | nil => intro math rest prev h; cases h
  | cons c l ih =>
    intro math rest prev h
    rw [dollarEnd] at h
    split at h
    · cases h
    · split at h
      · cases h; rfl
      · obtain ⟨⟨math', rest'⟩, hfind, he⟩ := Option.map_eq_some_iff.1 h
        cases he
        rw [ih hfind]
        rfl

theorem tagScan_eq : ∀ {l body rest : Bytes} {quote : Option UInt8},
    tagScan quote l = some (body, rest) → l = body ++ rest := by
  intro l
  induction l with
  | nil => intro body rest quote h; cases quote <;> cases h
  | cons c l ih =>
    intro body rest quote h
    have hcons : ∀ quote, (tagScan quote l).map (fun r => (c :: r.1, r.2)) = some (body, rest) →
        c :: l = body ++ rest := by
      intro quote hmap
      obtain ⟨⟨body', rest'⟩, hscan, he⟩ := Option.map_eq_some_iff.1 hmap
      cases he
      rw [ih hscan]
      rfl
    cases quote with
    | some q => exact hcons _ h
    | none =>
      rw [tagScan] at h
      split at h
      · exact hcons _ h
      · split at h
        · cases h; rfl
        · split at h
          · cases h
          · exact hcons _ h

theorem htmlTagEnd_suffix {l tag left : Bytes} (h : htmlTagEnd l = some (tag, left)) :
    left <:+ l := by
  unfold htmlTagEnd at h
  split at h
  · cases h
  · rename_i c rest
    split at h
    · cases h
    · dsimp only at h
      generalize (if rest.head? == some 0x2F then [0x2F] else [] : Bytes) = slash at h
      split at h
      · obtain ⟨⟨body, left'⟩, hscan, he⟩ := Option.map_eq_some_iff.1 h
        cases he
        exact ((List.suffix_append_of_suffix (List.suffix_refl _)).trans
          (tagScan_eq hscan ▸ List.drop_suffix _ rest)).trans (List.suffix_cons c rest)
      · cases h

theorem codeSpan_suffix {run : Nat} : ∀ {n : Nat} {l code rest : Bytes},
    codeSpan run n l = some (code, rest) → rest <:+ l := by
  intro n
  induction n with
  | zero => intro l code rest h; cases h
  | succ n ih =>
    intro l code rest h
    rw [codeSpan] at h
    split at h
    · cases h
    · rename_i before ticks hfind
      have hticks : ∀ k, ticks.drop k <:+ l := by
        intro k
        rw [(findByte_eq hfind).1]
        exact (List.drop_suffix k ticks).trans (List.suffix_append before ticks)
      dsimp only at h
      split at h
      · cases h
        exact hticks _
      · obtain ⟨⟨code', rest'⟩, hcode, he⟩ := Option.map_eq_some_iff.1 h
        cases he
        exact (ih hcode).trans (hticks _)

/-- A literal span starts its text, and only a code element stays as it is. -/
theorem literalEnd_cases {prev : Option UInt8} {l text left : Bytes}
    (h : literalEnd prev l = some (text, left)) :
    left <:+ l ∧ (text.head? = some 0x3C → codeElement l = some (text, left)) := by
  have hspan : ∀ (k m : Nat) (open_ close : Bytes) {before rest : Bytes},
      l.drop k = before ++ rest → open_.head?.all (· != 0x3C) = true → open_ ≠ [] →
      (open_ ++ before ++ close, rest.drop m) = (text, left) →
      left <:+ l ∧ (text.head? = some 0x3C → codeElement l = some (text, left)) := by
    intro k m open_ close before rest hdrop hopen hne he
    cases he
    refine ⟨?_, fun hhead => ?_⟩
    · have hrest : rest <:+ l.drop k := by rw [hdrop]; exact List.suffix_append before rest
      exact ((List.drop_suffix m rest).trans hrest).trans (List.drop_suffix k l)
    · obtain ⟨c, open', rfl⟩ := List.exists_cons_of_ne_nil hne
      cases hhead
      cases hopen
  unfold literalEnd at h
  split at h
  · cases h
  · split at h
    · obtain ⟨⟨before, rest⟩, hfind, he⟩ := Option.map_eq_some_iff.1 h
      exact hspan 2 2 _ _ (unescapedFind_eq hfind) (by decide) (by decide) he
    · split at h
      · obtain ⟨⟨before, rest⟩, hfind, he⟩ := Option.map_eq_some_iff.1 h
        exact hspan 1 0 [0x24] [] (dollarEnd_eq hfind) (by decide) (by decide) (by simpa using he)
      · split at h
        · obtain ⟨⟨before, rest⟩, hfind, he⟩ := Option.map_eq_some_iff.1 h
          exact hspan 2 2 _ _ (findSub_eq hfind) (by decide) (by decide) he
        · split at h
          · obtain ⟨⟨before, rest⟩, hfind, he⟩ := Option.map_eq_some_iff.1 h
            exact hspan 2 2 _ _ (findSub_eq hfind) (by decide) (by decide) he
          · refine ⟨?_, fun _ => h⟩
            rw [(codeElement_eq h).1]
            exact List.suffix_append text left

/-- A piece whose parts are whole. -/
structure Piece.Clean (p : Piece) : Prop where
  html : Whole p.html
  openTags : Whole p.openTags
  closeTags : Whole p.closeTags
  ch : p.ch ≠ 0x3C

def Token.Clean : Token → Prop
  | .raw html => Whole html
  | .delim piece => piece.Clean
  | .newline => True

theorem notMem_ticks (l : Bytes) : 0x3C ∉ l.take (l.takeWhile (· == 0x60)).length := by
  intro h
  rw [← List.prefix_iff_eq_take.1 (List.takeWhile_prefix (· == (0x60 : UInt8)))] at h
  have := List.mem_takeWhile_imp h
  revert this
  decide

theorem backticks_clean (l : Bytes) : (backticks l).1.Clean ∧ (backticks l).2 <:+ l := by
  unfold backticks
  dsimp only
  split
  · rename_i code rest hspan
    refine ⟨?_, (codeSpan_suffix hspan).trans (List.drop_suffix _ l)⟩
    have hopen : Whole (ascii "<code>") := by decide
    have hclose : Whole (ascii "</code>") := by decide
    exact (hopen.append (whole_escapeInto _)).append hclose
  · exact ⟨whole_of_notMem (notMem_ticks l), List.drop_suffix _ l⟩

theorem delimiter_clean {c : UInt8} (hc : c ≠ 0x3C) (run : Nat) (before after : UInt8) :
    (delimiter c run before after).Clean := ⟨rfl, rfl, rfl, hc⟩

/-- A token of inline text is clean, and what is left is inline text. -/
theorem token_clean {prev : Option UInt8} {c : UInt8} {rest : Bytes} (h : Inline (c :: rest)) :
    (token prev c rest).1.Clean ∧ (token prev c rest).2 <:+ c :: rest := by
  unfold token
  dsimp only
  split
  · rename_i text left hliteral
    split at hliteral
    · obtain ⟨hsuffix, hcode⟩ := literalEnd_cases hliteral
      refine ⟨?_, hsuffix⟩
      show Whole _
      split
      · rename_i hhead
        exact codeElement_whole h (hcode (beq_iff_eq.1 hhead))
      · exact whole_escapeInto text
    · cases hliteral
  · split
    · exact backticks_clean (c :: rest)
    · split
      · have hbreak : Whole (ascii "<br />\n") := by decide
        exact ⟨hbreak, (List.drop_suffix 1 rest).trans (List.suffix_cons c rest)⟩
      · split
        · exact ⟨whole_escapeInto _, (List.drop_suffix 1 rest).trans (List.suffix_cons c rest)⟩
        · split
          · rename_i tag left htag
            exact ⟨htmlTagEnd_whole h htag, htmlTagEnd_suffix htag⟩
          · split
            · rename_i hdelim
              refine ⟨delimiter_clean ?_ _ _ _, List.drop_suffix _ _⟩
              rintro rfl
              cases hdelim
            · split
              · exact ⟨trivial, (List.dropWhile_suffix _).trans (List.suffix_cons c rest)⟩
              · exact ⟨whole_escapeByte c, List.suffix_cons c rest⟩

/-! ## Pieces -/

theorem flush_clean {buffer : Bytes} (h : Whole buffer) : ∀ p ∈ flush buffer, p.Clean := by
  intro p hp
  unfold flush at hp
  split at hp
  · cases hp
  · rw [List.mem_singleton.1 hp]
    have hch : (0 : UInt8) ≠ 0x3C := by decide
    exact ⟨h, rfl, rfl, hch⟩

theorem breakLine_whole {buffer : Bytes} (h : Whole buffer) : Whole (breakLine buffer) := by
  unfold breakLine
  have hkept : Whole (buffer.rdropWhile (· == 0x20)) := by
    refine h.rdropWhile ?_
    intro c hc
    rw [beq_iff_eq.1 hc]
    rfl
  refine hkept.append ?_
  split
  · decide
  · decide

theorem piecesFrom_clean :
    ∀ (n : Nat) (prev : Option UInt8) {buffer l : Bytes}, Whole buffer → Inline l →
    ∀ p ∈ piecesFrom n prev buffer l, p.Clean := by
  intro n
  induction n with
  | zero => intro prev buffer l hbuffer _; exact flush_clean hbuffer
  | succ n ih =>
    intro prev buffer l hbuffer hl
    cases l with
    | nil => exact flush_clean hbuffer
    | cons c rest =>
      obtain ⟨hclean, hsuffix⟩ := @token_clean prev c rest hl
      have hleft : Inline (token prev c rest).2 := hl.of_part hsuffix.isInfix
      rw [piecesFrom]
      cases htoken : (token prev c rest).1 with
      | raw html =>
        rw [htoken] at hclean
        exact ih _ (hbuffer.append hclean) hleft
      | delim piece =>
        rw [htoken] at hclean
        intro p hp
        rcases List.mem_append.1 hp with hp | hp
        · exact flush_clean hbuffer p hp
        · rcases List.mem_cons.1 hp with rfl | hp
          · exact hclean
          · exact ih _ whole_nil hleft p hp
      | newline => exact ih _ (breakLine_whole hbuffer) hleft

/-! ## Emphasis -/

def Emphasis.Clean (e : Emphasis) : Prop := ∀ p ∈ e.pieces, p.Clean

theorem Emphasis.Clean.pair {e : Emphasis} (h : e.Clean) (s index : Nat) (below : List Nat) :
    (e.pair s index below).Clean := by
  have hopen : ∀ used, Whole (openTagOf used) := by
    intro used
    unfold openTagOf
    split <;> decide
  have hclose : ∀ used, Whole (closeTagOf used) := by
    intro used
    unfold closeTagOf
    split <;> decide
  intro p hp
  have hopener : ∀ q ∈ e.pieces.modify s fun p => { p with
      openTags := openTagOf (if (e.piece s).count ≥ 2 && (e.piece index).count ≥ 2 then 2 else 1) ++
        p.openTags
      count := p.count - if (e.piece s).count ≥ 2 && (e.piece index).count ≥ 2 then 2 else 1 },
        q.Clean := by
    intro q hq
    rcases mem_modify hq with hq | ⟨r, hr, rfl⟩
    · exact h q hq
    · have hclean := h r hr
      exact ⟨hclean.html, (hopen _).append hclean.openTags, hclean.closeTags, hclean.ch⟩
  rcases mem_modify hp with hp | ⟨q, hq, rfl⟩
  · exact hopener p hp
  · have hclean := hopener q hq
    exact ⟨hclean.html, hclean.openTags, hclean.closeTags.append (hclose _), hclean.ch⟩

theorem Emphasis.Clean.close (floor index : Nat) : ∀ (n : Nat) {e : Emphasis}, e.Clean →
    (Emphasis.close floor index n e).1.Clean := by
  intro n
  induction n with
  | zero => intro e h; exact h
  | succ n ih =>
    intro e h
    rw [Emphasis.close]
    split
    · exact h
    · split
      · exact h
      · exact ih (h.pair _ index _)

theorem Emphasis.Clean.step {e : Emphasis} (h : e.Clean) (index : Nat) : (e.step index).Clean := by
  unfold Emphasis.step
  dsimp only
  split
  · exact h
  · have hclosed : ∀ e' : Emphasis, e'.Clean →
      (if (e'.piece index).count > 0 && (e.piece index).canOpen then
        { e' with stack := index :: e'.stack } else e').Clean := by
      intro e' he'
      split
      · exact he'
      · exact he'
    refine hclosed _ ?_
    split
    · have hclose := h.close (((e.bottom.lookup ((e.piece index).ch, (e.piece index).canOpen,
        (e.piece index).orig % 3)).getD 0)) index (e.piece index).count
      split
      · exact hclose
      · exact hclose
    · exact h

theorem processEmphasis_clean {pieces : List Piece} (h : ∀ p ∈ pieces, p.Clean) :
    ∀ p ∈ processEmphasis pieces, p.Clean := by
  have hfold : ∀ (indices : List Nat) {e : Emphasis}, e.Clean →
    (indices.foldl Emphasis.step e).Clean := by
    intro indices
    induction indices with
    | nil => intro e he; exact he
    | cons i indices ih => intro e he; exact ih (he.step i)
  exact hfold (List.range pieces.length) (e := { pieces := pieces }) h

theorem Piece.Clean.render {p : Piece} (h : p.Clean) : Whole p.render := by
  unfold Piece.render
  split
  · exact h.html
  · refine (h.closeTags.append (whole_of_notMem ?_)).append h.openTags
    intro hmem
    exact h.ch (List.eq_of_mem_replicate hmem).symm

/-- **Rendered paragraphs are whole.** -/
theorem whole_renderParagraph {text : Bytes} (h : Inline text) : Whole (renderParagraph text) :=
  whole_flatMap _ fun p hp =>
    (processEmphasis_clean (piecesFrom_clean text.length none whole_nil h) p hp).render

/-! ## Paragraphs -/

theorem trim_part (l : Bytes) : trim l <:+: l :=
  (List.rdropWhile_prefix isBlank _).isInfix.trans (List.dropWhile_suffix isBlank).isInfix

theorem whole_emitParagraph {paragraph : Bytes} (h : Inline paragraph) :
    Whole (emitParagraph paragraph) := by
  unfold emitParagraph
  split
  · rfl
  · have hopen : Whole (ascii "<p>") := by decide
    have hclose : Whole (ascii "</p>\n") := by decide
    exact (hopen.append (whole_renderParagraph (h.of_part (trim_part paragraph)))).append hclose

/-- The lines of a paragraph so far, and those to come. -/
def joinLines (paragraph : Bytes) (lines : List Bytes) : Bytes :=
  lines.foldl (fun text line => text ++ 0x0A :: line) paragraph

theorem joinLines_append (a b : Bytes) :
    ∀ lines, joinLines (a ++ b) lines = a ++ joinLines b lines := by
  intro lines
  induction lines generalizing b with
  | nil => rfl
  | cons line lines ih =>
    show joinLines (a ++ b ++ 0x0A :: line) lines = a ++ joinLines (b ++ 0x0A :: line) lines
    rw [List.append_assoc, ih]

theorem joinLines_suffix (paragraph : Bytes) (line : Bytes) (lines : List Bytes) :
    joinLines line lines <:+ joinLines paragraph (line :: lines) := by
  show joinLines line lines <:+ joinLines (paragraph ++ 0x0A :: line) lines
  rw [← List.singleton_append, ← List.append_assoc, joinLines_append]
  exact List.suffix_append _ _

theorem prefix_joinLines (paragraph : Bytes) :
    ∀ lines, paragraph <+: joinLines paragraph lines := by
  intro lines
  induction lines generalizing paragraph with
  | nil => exact List.prefix_rfl
  | cons line lines ih => exact (List.prefix_append paragraph _).trans (ih _)

theorem inline_nil : Inline [] := ⟨.outside, rfl⟩

/-- **The rendered lines are whole**: each paragraph is a piece of the text. -/
theorem whole_renderLines : ∀ {lines : List Bytes} {paragraph : Bytes},
    (paragraph = [] → ∀ line rest, lines = line :: rest → Inline (joinLines line rest)) →
    (paragraph ≠ [] → Inline (joinLines paragraph lines)) →
      Whole (renderLines paragraph lines) := by
  intro lines
  induction lines with
  | nil =>
    intro paragraph _ h
    by_cases hempty : paragraph = []
    · subst hempty
      exact whole_emitParagraph inline_nil
    · exact whole_emitParagraph (h hempty)
  | cons line lines ih =>
    intro paragraph hempty hfull
    have hpara : Inline paragraph := by
      by_cases hp : paragraph = []
      · subst hp
        exact inline_nil
      · exact (hfull hp).of_part (prefix_joinLines paragraph _).isInfix
    have hline : Inline (joinLines line lines) := by
      by_cases hp : paragraph = []
      · exact hempty hp line lines rfl
      · exact (hfull hp).of_part (joinLines_suffix paragraph line lines).isInfix
    rw [renderLines]
    split
    · refine (whole_emitParagraph hpara).append (ih ?_ fun h => absurd rfl h)
      intro _ line' lines' he
      subst he
      exact hline.of_part (joinLines_suffix line line' lines').isInfix
    · rename_i hblank
      have hne : line ≠ [] := by
        rintro rfl
        exact hblank rfl
      cases hp : paragraph.isEmpty with
      | true => exact ih (fun h => absurd h hne) fun _ => hline
      | false =>
        have hp' : paragraph ≠ [] := by simpa using hp
        exact ih (fun h => absurd h (by simp)) fun _ => hfull hp'

/-! ## Unescaping -/

theorem ticks_special (rest : Bytes) :
    ∃ a, ((0x60 : UInt8) :: rest).takeWhile (· == 0x60) = a ++ [0x60] := by
  have hne : ((0x60 : UInt8) :: rest).takeWhile (· == 0x60) ≠ [] := by simp
  have hlast := List.mem_takeWhile_imp (List.getLast_mem hne)
  refine ⟨(((0x60 : UInt8) :: rest).takeWhile (· == 0x60)).dropLast, ?_⟩
  conv_lhs => rw [← List.dropLast_append_getLast hne]
  rw [beq_iff_eq.1 hlast]

/-- A span that is copied starts and ends with a byte that stands in no tag. -/
theorem copiedSpan_cases {l text left : Bytes} (h : copiedSpan l = some (text, left)) :
    l = text ++ left ∧ l.head?.all isSpecial = true ∧
      ∃ a z, text = a ++ [z] ∧ isSpecial z = true := by
  have hspan : ∀ {open_ close before rest : Bytes}, l = open_ ++ (before ++ rest) → close <+: rest →
      (∃ a z, close = a ++ [z] ∧ isSpecial z = true) →
      (open_ ++ before ++ close, rest.drop close.length) = (text, left) →
      l = text ++ left ∧ ∃ a z, text = a ++ [z] ∧ isSpecial z = true := by
    intro open_ close before rest heq hclose hz he
    cases he
    obtain ⟨a, z, rfl, hspecial⟩ := hz
    refine ⟨?_, open_ ++ before ++ a, z, by simp, hspecial⟩
    obtain ⟨more, rfl⟩ := hclose
    rw [List.drop_left, heq]
    simp
  have hhead : ∀ {c : UInt8} {rest : Bytes}, l = c :: rest → isSpecial c = true →
      l.head?.all isSpecial = true := by
    rintro c rest rfl hc
    exact hc
  have hpair : ∀ {c d : UInt8} {rest : Bytes}, rest.head? = some d →
    c :: rest = [c, d] ++ rest.drop 1 := by
    intro c d rest hd
    cases rest with
    | nil => cases hd
    | cons x rest => cases hd; rfl
  cases l with
  | nil => cases h
  | cons c rest =>
    rw [copiedSpan] at h
    dsimp only at h
    split at h
    · rename_i hc
      rw [beq_iff_eq.1 hc] at h hspan ⊢
      obtain ⟨a, hrun⟩ := ticks_special rest
      have hsplit :=
        (List.takeWhile_append_dropWhile (p := (· == (0x60 : UInt8))) (l := 0x60 :: rest)).symm
      split at h
      · rename_i code close hfind
        rw [findSub_eq hfind] at hsplit
        have hcut := hspan hsplit (findSub_starts hfind) ⟨a, 0x60, hrun, rfl⟩ (Option.some.inj h)
        exact ⟨hcut.1, rfl, hcut.2⟩
      · cases h
        exact ⟨hsplit, rfl, a, 0x60, hrun, rfl⟩
    · split at h
      · rename_i hc
        rw [beq_iff_eq.1 hc] at h hspan ⊢
        have hdelim : ∃ a, (if rest.head? == some 0x24 then ascii "$$" else ascii "$") =
          a ++ [0x24] := by
          split
          · exact ⟨[0x24], rfl⟩
          · exact ⟨[], rfl⟩
        have hstart : 0x24 :: rest = (if rest.head? == some 0x24 then ascii "$$" else ascii "$") ++
            (0x24 :: rest).drop
              (if rest.head? == some 0x24 then ascii "$$" else ascii "$").length := by
          split
          · rename_i hd
            exact hpair (beq_iff_eq.1 hd)
          · rfl
        generalize (if rest.head? == some 0x24 then ascii "$$" else ascii "$") =
          delim at h hdelim hstart
        split at h
        · rename_i math close hfind
          split at h
          · rw [findSub_eq hfind] at hstart
            obtain ⟨a, ha⟩ := hdelim
            have hcut := hspan hstart (findSub_starts hfind) ⟨a, 0x24, ha, rfl⟩ (Option.some.inj h)
            exact ⟨hcut.1, rfl, hcut.2⟩
          · cases h
        · cases h
      · split at h
        · rename_i hc
          obtain ⟨hslash, hnext⟩ := Bool.and_eq_true_iff.1 hc
          cases h
          refine ⟨?_, hhead rfl ?_, [0x5C], 0x5C, rfl, rfl⟩
          · rw [beq_iff_eq.1 hslash]
            exact hpair (beq_iff_eq.1 hnext)
          · rw [beq_iff_eq.1 hslash]
            rfl
        · split at h
          · rename_i hc
            obtain ⟨hslash, hnext⟩ := Bool.and_eq_true_iff.1 hc
            obtain ⟨⟨math, close⟩, hfind, he⟩ := Option.map_eq_some_iff.1 h
            rw [beq_iff_eq.1 hslash] at hspan ⊢
            have hstart : 0x5C :: rest = [0x5C, 0x28] ++ rest.drop 1 := hpair (beq_iff_eq.1 hnext)
            rw [findSub_eq hfind] at hstart
            have hcut := hspan hstart (findSub_starts hfind) ⟨[0x5C], 0x29, rfl, rfl⟩ he
            exact ⟨hcut.1, rfl, hcut.2⟩
          · split at h
            · rename_i hc
              obtain ⟨hslash, hnext⟩ := Bool.and_eq_true_iff.1 hc
              obtain ⟨⟨math, close⟩, hfind, he⟩ := Option.map_eq_some_iff.1 h
              rw [beq_iff_eq.1 hslash] at hspan ⊢
              have hstart : 0x5C :: rest = [0x5C, 0x5B] ++ rest.drop 1 := hpair (beq_iff_eq.1 hnext)
              rw [findSub_eq hfind] at hstart
              have hcut := hspan hstart (findSub_starts hfind) ⟨[0x5C], 0x5D, rfl, rfl⟩ he
              exact ⟨hcut.1, rfl, hcut.2⟩
            · cases h

theorem tagRun_unescapeFrom : ∀ (n : Nat) {l : Bytes} {s : TagState}, tagRun s l = some .outside →
    tagRun s (unescapeFrom n l) = some .outside := by
  intro n
  induction n with
  | zero => intro l s h; exact h
  | succ n ih =>
    intro l s h
    cases l with
    | nil => exact h
    | cons c rest =>
      rw [unescapeFrom]
      split
      · rename_i text left hcopied
        obtain ⟨heq, hhead, a, z, rfl, hz⟩ := copiedSpan_cases hcopied
        rw [heq, List.append_assoc, List.singleton_append] at h
        obtain ⟨htext, hleft⟩ := tagRun_split_special hz h
        rw [tagRun_append, htext]
        exact ih hleft
      · split
        · rename_i hescaped
          obtain ⟨hslash, hnext⟩ := Bool.and_eq_true_iff.1 hescaped
          rw [beq_iff_eq.1 hslash] at h
          obtain ⟨rfl, hrest⟩ := tagRun_special rfl h
          cases rest with
          | nil => cases hnext
          | cons d rest =>
            have hd : isSpecial d = true := by
              rcases Bool.or_eq_true_iff.1 hnext with hd | hd
              · rw [List.head?_cons, Option.some_beq_some] at hd
                rw [beq_iff_eq.1 hd]
                rfl
              · rw [List.head?_cons, Option.some_beq_some] at hd
                rw [beq_iff_eq.1 hd]
                rfl
            obtain ⟨hword, hleft⟩ := tagRun_split_special (a := []) hd hrest
            show tagRun .outside ([d] ++ unescapeFrom n rest) = some .outside
            rw [tagRun_append, show tagRun .outside [d] = some .outside from hword]
            exact ih hleft
        · rw [tagRun] at h ⊢
          cases hstep : tagStep s c with
          | none => rw [hstep] at h; cases h
          | some s' =>
            rw [hstep] at h
            exact ih h

/-- **Unescaping keeps a text whole.** -/
theorem whole_unescape {text : Bytes} (h : Whole text) : Whole (unescapeMarkdownLiterals text) :=
  tagRun_unescapeFrom text.length h

end VlmConvert.L1

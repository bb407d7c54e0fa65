import VlmConvert.L1Text.InlineTags

/-!
# Inline content in the element tree

A whole text whose line breaks became `<br>` is `Content`: bytes and inline
tags, where a tag with a line break in it ends at the `<br>`. The parser reads
content inside an open element without leaving it: an inline tag opens or
closes inline elements only, a tag past the parser's window is text, and the
depth cap keeps elements out of the stack.

Results:
* `content_breakLines`: a whole text with its lines broken is content.
* `parse_element`: an element with inline content is one element, whatever
  stands around it.
-/
namespace VlmConvert.L1

open Bytes

/-! ## Content -/

/-- How a tag ends; a line break in it leaves `<br>`. -/
def tagTails : List Bytes := [ascii ">", ascii "/>", ascii "<br>"]

structure InlineTag where
  slash : Bool
  name : Bytes
  spaces : Bytes
  tail : Bytes
  name_ne : name ≠ []
  alpha : ∀ b ∈ name, isAlpha b = true
  inline : isInlineName name = true
  blanks : ∀ b ∈ spaces, isSpace b = true
  ends : tail ∈ tagTails

def slashBytes (slash : Bool) : Bytes := if slash then [0x2F] else []

/-- A tag behind its '<'. -/
def InlineTag.body (t : InlineTag) : Bytes := slashBytes t.slash ++ (t.name ++ (t.spaces ++ t.tail))

inductive Content : Bytes → Prop
  | nil : Content []
  | byte {c : UInt8} {l : Bytes} (hc : c ≠ 0x3C) (hl : Content l) : Content (c :: l)
  | tag (t : InlineTag) {l : Bytes} (hl : Content l) : Content (0x3C :: (t.body ++ l))

theorem Content.of_notMem {a l : Bytes} (ha : 0x3C ∉ a) (hl : Content l) : Content (a ++ l) := by
  induction a with
  | nil => exact hl
  | cons c a ih =>
    simp only [List.mem_cons, not_or] at ha
    exact .byte (Ne.symm ha.1) (ih ha.2)

/-- `<br>` -/
def brTag : InlineTag where
  slash := false
  name := ascii "br"
  spaces := []
  tail := ascii ">"
  name_ne := by decide
  alpha := List.all_eq_true.1 (by decide)
  inline := by decide
  blanks := by simp
  ends := by decide

theorem Content.br {l : Bytes} (hl : Content l) : Content (ascii "<br>" ++ l) := .tag brTag hl

/-! ## Broken lines -/

/-- The end of a tag behind its name, and content. -/
def Ends (l : Bytes) : Prop :=
  ∃ spaces tail l', l = spaces ++ (tail ++ l') ∧ (∀ b ∈ spaces, isSpace b = true) ∧
    tail ∈ tagTails ∧ Content l'

/-- The rest of a tag from a state on, and content. -/
def Completes : TagState → Bytes → Prop
  | .outside, l => Content l
  | .opened, l => ∃ (t : InlineTag) (l' : Bytes), l = t.body ++ l' ∧ Content l'
  | .slashed, l => ∃ (t : InlineTag) (l' : Bytes), 0x2F :: l = t.body ++ l' ∧ Content l'
  | .name n, l => ∃ more l', l = more ++ l' ∧ (∀ b ∈ more, isAlpha b = true) ∧
      isInlineName (n ++ more) = true ∧ Ends l'
  | .spaces, l => Ends l
  | .closing, l => ∃ l', l = 0x3E :: l' ∧ Content l'

theorem ends_of_tagEnd {c : UInt8} {s : TagState} {l : Bytes} (h : tagEnd c = some s)
    (hl : Completes s l) :
    Ends (c :: l) := by
  unfold tagEnd at h
  split at h
  · rename_i hspace
    cases h
    obtain ⟨spaces, tail, l', rfl, hspaces, htail, hl'⟩ := hl
    refine ⟨c :: spaces, tail, l', rfl, ?_, htail, hl'⟩
    rintro b (_ | ⟨_, hb⟩)
    · exact hspace
    · exact hspaces b hb
  · split at h
    · rename_i hslash
      cases h
      obtain ⟨l', rfl, hl'⟩ := hl
      rw [beq_iff_eq.1 hslash]
      exact ⟨[], ascii "/>", l', rfl, by simp, by decide, hl'⟩
    · split at h
      · rename_i hgt
        cases h
        rw [beq_iff_eq.1 hgt]
        exact ⟨[], ascii ">", l, rfl, by simp, by decide, hl⟩
      · cases h

/-- A name that starts with `c`, and what follows it. -/
theorem completes_name {c : UInt8} (hc : isAlpha c = true) {l : Bytes}
    (hl : Completes (.name [c]) l)
    (slash : Bool) :
    ∃ (t : InlineTag) (l' : Bytes), slashBytes slash ++ c :: l = t.body ++ l' ∧ Content l' := by
  obtain ⟨more, l', rfl, hmore, hname, spaces, tail, l'', rfl, hspaces, htail, hl''⟩ := hl
  refine ⟨⟨slash, c :: more, spaces, tail, by simp, ?_, hname, hspaces, htail⟩, l'', ?_, hl''⟩
  · rintro b (_ | ⟨_, hb⟩)
    · exact hc
    · exact hmore b hb
  · simp [InlineTag.body]

/-- A byte that stays carries what its state completes to. -/
theorem completes_step {s s' : TagState} {c : UInt8} {l : Bytes} (h : tagStep s c = some s')
    (hl : Completes s' l) (hcontent : Content l) : Completes s (c :: l) := by
  cases s with
  | outside =>
    rw [tagStep] at h
    cases hlt : c == 0x3C with
    | true =>
      rw [hlt] at h
      cases h
      obtain ⟨t, l', rfl, hl'⟩ := hl
      rw [beq_iff_eq.1 hlt]
      exact .tag t hl'
    | false => exact .byte (beq_eq_false_iff_ne.1 hlt) hcontent
  | opened =>
    rw [tagStep] at h
    split at h
    · rename_i hslash
      cases h
      rw [beq_iff_eq.1 hslash]
      exact hl
    · split at h
      · rename_i halpha
        cases h
        exact completes_name halpha hl false
      · cases h
  | slashed =>
    rw [tagStep] at h
    split at h
    · rename_i halpha
      cases h
      exact completes_name halpha hl true
    · cases h
  | name n =>
    rw [tagStep] at h
    split at h
    · rename_i halpha
      cases h
      obtain ⟨more, l', rfl, hmore, hname, hends⟩ := hl
      refine ⟨c :: more, l', rfl, ?_, by simpa using hname, hends⟩
      rintro b (_ | ⟨_, hb⟩)
      · exact halpha
      · exact hmore b hb
    · split at h
      · rename_i hname
        exact ⟨[], c :: l, rfl, by simp, by simpa using hname, ends_of_tagEnd h hl⟩
      · cases h
  | spaces => exact ends_of_tagEnd h hl
  | closing =>
    rw [tagStep] at h
    split at h
    · rename_i hgt
      cases h
      rw [beq_iff_eq.1 hgt]
      exact ⟨l, rfl, hl⟩
    · cases h

/-- A line break ends whatever tag it stands in. -/
theorem completes_newline {s s' : TagState} {l : Bytes} (h : tagStep s 0x0A = some s')
    (hl : Content l) :
    Completes s (ascii "<br>" ++ l) := by
  have hends : Ends (ascii "<br>" ++ l) := ⟨[], ascii "<br>", l, rfl, by simp, by decide, hl⟩
  cases s with
  | outside => exact hl.br
  | opened => cases h
  | slashed => cases h
  | name n =>
    rw [tagStep, if_neg (by decide)] at h
    split at h
    · rename_i hname
      exact ⟨[], _, rfl, by simp, by simpa using hname, hends⟩
    · cases h
  | spaces => exact hends
  | closing => cases h

theorem completes_content {s s' : TagState} {c : UInt8} {l : Bytes} (h : tagStep s c = some s')
    (hl : Completes s' l) (hcontent : Content l) : Content (c :: l) ∧ Completes s (c :: l) := by
  refine ⟨?_, completes_step h hl hcontent⟩
  by_cases hlt : c = 0x3C
  · have hout : s = .outside := tagStep_lt (by rw [← hlt, h]; rfl)
    rw [hout] at h
    exact completes_step h hl hcontent
  · exact .byte hlt hcontent

/-- A whole text is content. -/
theorem completes_self : ∀ {l : Bytes} {s : TagState}, tagRun s l = some .outside →
    Content l ∧ Completes s l := by
  intro l
  induction l with
  | nil =>
    intro s h
    cases h
    exact ⟨.nil, .nil⟩
  | cons c l ih =>
    intro s h
    rw [tagRun] at h
    cases hstep : tagStep s c with
    | none => rw [hstep] at h; cases h
    | some s' =>
      rw [hstep] at h
      obtain ⟨hcontent, hcompletes⟩ := ih h
      exact completes_content hstep hcompletes hcontent

theorem Whole.content {l : Bytes} (h : Whole l) : Content l := (completes_self h).1

/-- **A whole text with its lines broken is content**, from any state on. -/
theorem completes_breakLines : ∀ (n : Nat) {l : Bytes} {s : TagState}, l.length ≤ n →
    tagRun s l = some .outside → Content (breakLines 0 l) ∧ Completes s (breakLines 0 l) := by
  intro n
  induction n with
  | zero =>
    intro l s hn h
    rw [List.eq_nil_of_length_eq_zero (Nat.le_zero.1 hn)] at h ⊢
    cases h
    exact ⟨.nil, .nil⟩
  | succ n ih =>
    intro l s hn h
    cases l with
    | nil =>
      cases h
      exact ⟨.nil, .nil⟩
    | cons c rest =>
      rw [List.length_cons] at hn
      rw [breakLines]
      split
      · rename_i hbr
        obtain ⟨left, hleft⟩ := List.isPrefixOf_iff_prefix.1 hbr
        rw [← hleft] at h
        have hc : c = 0x3C := (List.cons.inj hleft).1.symm
        have hrest : rest = ascii "br />\n" ++ left := (List.cons.inj hleft).2.symm
        have hout : s = .outside := by
          refine tagStep_lt ?_
          have hrun : (tagStep s 0x3C).bind (tagRun · (ascii "br />\n" ++ left)) =
            some .outside := h
          cases hstep : tagStep s 0x3C with
          | none => rw [hstep] at hrun; cases hrun
          | some s' => rfl
        subst hout
        have hrun : tagRun .outside left = some .outside := by
          rw [tagRun_append, show tagRun .outside (ascii "<br />\n") = some .outside by decide] at h
          exact h
        have hskip : breakLines 6 rest = breakLines 0 left := by rw [hrest]; rfl
        rw [hskip]
        have hlength : left.length ≤ n := by
          rw [hrest, List.length_append] at hn
          omega
        have hcontent := (ih hlength hrun).1
        exact ⟨hcontent.br, hcontent.br⟩
      · rw [tagRun] at h
        cases hstep : tagStep s c with
        | none => rw [hstep] at h; cases h
        | some s' =>
          rw [hstep] at h
          obtain ⟨hcontent, hcompletes⟩ := ih (show rest.length ≤ n by omega) h
          split
          · rename_i hnl
            rw [beq_iff_eq.1 hnl] at hstep
            exact ⟨hcontent.br, completes_newline hstep hcontent⟩
          · exact completes_content hstep hcompletes hcontent

theorem content_breakLines {l : Bytes} (h : Whole l) : Content (breakLines 0 l) :=
  (completes_breakLines l.length (Nat.le_refl _) h).1

/-! ## Reading inline tags -/

theorem isNameChar_of_isAlpha {b : UInt8} (h : isAlpha b = true) : isNameChar b = true := by
  simp [isNameChar, h]

theorem isNameChar_of_isSpace {b : UInt8} (h : isSpace b = true) : isNameChar b = false := by
  have hall : ∀ n : Fin 256, isSpace (UInt8.ofFin n) = true →
    isNameChar (UInt8.ofFin n) = false := by
    decide +kernel
  exact hall b.toFin h

theorem isAlpha_ne {b : UInt8} (h : isAlpha b = true) :
    b ≠ 0x21 ∧ b ≠ 0x3F ∧ b ≠ 0x2F ∧ b ≠ 0x3E ∧ b ≠ 0x3C := by
  refine ⟨?_, ?_, ?_, ?_, ?_⟩
  all_goals
    rintro rfl
    cases h

namespace InlineTag
variable (t : InlineTag)

/-- What stands behind the name is no part of it. -/
theorem takeWhile_name (rest : Bytes) :
    (t.name ++ (t.spaces ++ (t.tail ++ rest))).takeWhile isNameChar = t.name ∧
      (t.name ++ (t.spaces ++ (t.tail ++ rest))).dropWhile isNameChar =
        t.spaces ++ (t.tail ++ rest) := by
  have hname : ∀ b ∈ t.name, isNameChar b = true := fun b hb => isNameChar_of_isAlpha (t.alpha b hb)
  have hstop : (t.spaces ++ (t.tail ++ rest)).head?.all (fun b => !isNameChar b) = true := by
    cases hspaces : t.spaces with
    | nil =>
      have hends := t.ends
      simp only [tagTails, List.mem_cons, List.not_mem_nil, or_false] at hends
      rcases hends with he | he | he
      · rw [he]; rfl
      · rw [he]; rfl
      · rw [he]; rfl
    | cons b spaces =>
      have hb := isNameChar_of_isSpace (t.blanks b (by rw [hspaces]; exact List.mem_cons_self))
      simp [hb]
  have hrest : (t.spaces ++ (t.tail ++ rest)).takeWhile isNameChar = [] ∧
      (t.spaces ++ (t.tail ++ rest)).dropWhile isNameChar = t.spaces ++ (t.tail ++ rest) := by
    cases hl : t.spaces ++ (t.tail ++ rest) with
    | nil => exact ⟨rfl, rfl⟩
    | cons b l =>
      rw [hl] at hstop
      have hb : isNameChar b = false := by simpa using hstop
      simp [hb]
  rw [List.takeWhile_append_of_pos hname, List.dropWhile_append_of_pos hname, hrest.1, hrest.2]
  simp

/-- The tag it reads as. -/
def read : Tag where
  name := t.name.map toLower
  closing := t.slash
  selfClosing := t.tail == ascii "/>"
  attrs := if t.tail == ascii "<br>" && !t.slash then [(ascii "<br", [])] else []

theorem readAttrs_tail (n : Nat) (rest : Bytes) :
    readAttrs .html (n + 2) ⟨t.name.map toLower, t.slash, false, []⟩
      (t.spaces ++ (t.tail ++ rest)) =
      some (t.read, rest) := by
  have hdrop : ∀ l : Bytes, l.head?.all (fun b => !isSpace b) = true →
      (t.spaces ++ l).dropWhile isSpace = l := by
    intro l hl
    rw [List.dropWhile_append_of_pos t.blanks]
    cases l with
    | nil => rfl
    | cons b l =>
      have hb : isSpace b = false := by simpa using hl
      simp [hb]
  have hends := t.ends
  simp only [tagTails, List.mem_cons, List.not_mem_nil, or_false] at hends
  rcases hends with he | he | he
  · rw [readAttrs, he, hdrop _ rfl, read, he]
    rfl
  · rw [readAttrs, he, hdrop _ rfl, read, he]
    rfl
  · rw [readAttrs, he, hdrop _ rfl, read, he]
    cases t.slash with
    | true => rfl
    | false => rfl

theorem reads (hlen : t.body.length + 1 ≤ kMaxTagBytes) : Reads .html (0x3C :: t.body) t.read := by
  obtain ⟨c, name, hname⟩ := List.exists_cons_of_ne_nil t.name_ne
  have hc : isAlpha c = true := t.alpha c (by rw [hname]; exact List.mem_cons_self)
  have hne := isAlpha_ne hc
  refine ⟨⟨rfl, ?_⟩, ⟨?_, by simpa using hlen⟩, fun rest => ?_⟩
  · show (t.body).head?.all _ = true
    rw [body, hname]
    cases t.slash with
    | true => rfl
    | false => simp [slashBytes, hne.1, hne.2.1]
  · rw [List.length_cons, body, hname]
    simp
    omega
  · have hfuel : ∃ n, (0x3C :: t.body ++ rest).length = n + 2 := by
      refine ⟨t.body.length + rest.length - 1, ?_⟩
      have : 1 ≤ t.body.length := by
        rw [body, hname]
        simp
        omega
      simp only [List.cons_append, List.length_cons, List.length_append]
      omega
    obtain ⟨n, hn⟩ := hfuel
    have hclosing : ((t.body ++ rest).head? == some 0x2F) = t.slash := by
      rw [body, hname]
      cases t.slash with
      | true => rfl
      | false => simpa [slashBytes] using hne.2.2.1
    have hdrop : (if t.slash then (t.body ++ rest).drop 1 else t.body ++ rest) =
        t.name ++ (t.spaces ++ (t.tail ++ rest)) := by
      rw [body]
      cases t.slash with
      | true => simp [slashBytes]
      | false => simp [slashBytes]
    unfold readTag
    rw [hn]
    simp only [List.cons_append, List.drop_succ_cons, List.drop_zero, hclosing, hdrop,
      t.takeWhile_name]
    rw [hname]
    simp only [hc, Bool.not_true, Bool.false_eq_true, if_false]
    rw [← hname]
    exact t.readAttrs_tail n rest

/-- Only the last byte of a tag is a '>'. -/
theorem body_eq : ∃ start, t.body = start ++ [0x3E] ∧ 0x3E ∉ start := by
  have hfront : 0x3E ∉ slashBytes t.slash ++ (t.name ++ t.spaces) := by
    intro h
    rcases List.mem_append.1 h with h | h
    · revert h
      cases t.slash <;> decide
    · rcases List.mem_append.1 h with h | h
      · cases t.alpha _ h
      · cases t.blanks _ h
  have hends := t.ends
  simp only [tagTails, List.mem_cons, List.not_mem_nil, or_false] at hends
  have htail : ∃ start, t.tail = start ++ [0x3E] ∧ 0x3E ∉ start := by
    rcases hends with he | he | he
    · exact ⟨[], he, by simp⟩
    · exact ⟨[0x2F], he, by decide⟩
    · exact ⟨ascii "<br", he, by decide⟩
  obtain ⟨start, htail, hstart⟩ := htail
  refine ⟨slashBytes t.slash ++ (t.name ++ t.spaces) ++ start, by simp [body, htail], ?_⟩
  rw [List.mem_append, not_or]
  exact ⟨hfront, hstart⟩

/-- Behind its '<' a tag is content again. -/
theorem content {l : Bytes} (hl : Content l) : Content (t.body ++ l) := by
  have hfront : 0x3C ∉ slashBytes t.slash ++ (t.name ++ t.spaces) := by
    intro h
    rcases List.mem_append.1 h with h | h
    · revert h
      cases t.slash <;> decide
    · rcases List.mem_append.1 h with h | h
      · cases t.alpha _ h
      · cases t.blanks _ h
  have hbody : t.body ++ l = slashBytes t.slash ++ (t.name ++ t.spaces) ++ (t.tail ++ l) := by
    simp [body]
  rw [hbody]
  refine .of_notMem hfront ?_
  have hends := t.ends
  simp only [tagTails, List.mem_cons, List.not_mem_nil, or_false] at hends
  rcases hends with he | he | he
  · rw [he]; exact .of_notMem (by decide) hl
  · rw [he]; exact .of_notMem (by decide) hl
  · rw [he]; exact hl.br

end InlineTag

/-! ## A tag past the window is text -/

theorem attrName_suffix (l : Bytes) : (attrName l).2 <:+ l := by
  induction l with
  | nil => exact List.suffix_rfl
  | cons c l ih =>
    rw [attrName]
    split
    · exact List.suffix_rfl
    · exact ih.trans (List.suffix_cons c l)

theorem attrValue_suffix {l value rest : Bytes} (h : attrValue l = some (value, rest)) :
    rest <:+ l := by
  have hdrop := List.dropWhile_suffix (l := l) isSpace
  unfold attrValue at h
  split at h
  · rename_i after heq
    have hafter : after <:+ l :=
      ((List.suffix_cons 0x3D after).trans (heq ▸ List.suffix_rfl)).trans hdrop
    have hinner := List.dropWhile_suffix (l := after) isSpace
    split at h
    · cases h
      exact List.nil_suffix
    · rename_i q inner hq
      have hcons : q :: inner <:+ l := (hq ▸ hinner).trans hafter
      split at h
      · split at h
        · cases h
        · rename_i quoted close hfind
          cases h
          have hclose : close <:+ inner := by
            rw [(findByte_eq hfind).1]
            exact List.suffix_append _ _
          exact ((List.drop_suffix 1 close).trans hclose).trans
            ((List.suffix_cons q inner).trans hcons)
      · cases h
        exact (List.dropWhile_suffix _).trans hcons
  · cases h
    exact hdrop

theorem readAttrs_none (mode : MarkupMode) : ∀ (n : Nat) (tag : Tag) {l : Bytes}, 0x3E ∉ l →
    readAttrs mode n tag l = none := by
  intro n
  induction n with
  | zero => intro tag l _; rfl
  | succ n ih =>
    intro tag l h
    have hdrop := List.dropWhile_suffix (l := l) isSpace
    rw [readAttrs]
    split
    · rfl
    · rename_i c rest heq
      rw [heq] at hdrop
      have hin : 0x3E ∉ c :: rest := fun hm => h (hdrop.subset hm)
      have hc : (c == 0x3E) = false := by
        rw [beq_eq_false_iff_ne]
        rintro rfl
        exact hin List.mem_cons_self
      have hself : atSelfClose (c :: rest) = false := by
        cases rest with
        | nil => rfl
        | cons d rest =>
          have hd : (d == 0x3E) = false := by
            rw [beq_eq_false_iff_ne]
            rintro rfl
            exact hin (by simp)
          simp [atSelfClose, hd]
      rw [hc, hself]
      simp only [Bool.false_eq_true, if_false]
      have hname := attrName_suffix (c :: rest)
      split
      · exact ih tag fun hm => hin (List.mem_cons_of_mem c hm)
      · rename_i name after hattr
        rw [hattr] at hname
        split
        · rfl
        · rename_i value after' hvalue
          exact ih _ fun hm => hin (hname.subset ((attrValue_suffix hvalue).subset hm))

theorem readTag_none (mode : MarkupMode) {window : Bytes} (h : 0x3E ∉ window) :
    readTag mode window = none := by
  unfold readTag
  dsimp only
  split
  · rfl
  · split
    · rfl
    · refine readAttrs_none mode _ _ ?_
      intro hm
      have hin := (List.dropWhile_suffix isNameChar).subset hm
      split at hin
      · exact h ((List.drop_suffix 1 window).subset ((List.drop_suffix 1 _).subset hin))
      · exact h ((List.drop_suffix 1 window).subset hin)

/-! ## Steps of the parser -/

section Steps
variable {mode : MarkupMode} {b : Builder}

theorem parseRest_byte {c : UInt8} (hc : c ≠ 0x3C) (pending rest : Bytes) :
    parseRest mode b pending (c :: rest) = parseRest mode b (pending ++ [c]) rest := by
  rw [parseRest, parseRest, List.length_cons]
  cases hfind : findByte 0x3C rest with
  | none =>
    have hnone : findByte 0x3C (c :: rest) = none := by rw [findByte_cons hc, hfind]; rfl
    rw [parseLoop, hnone]
    cases rest with
    | nil => simp [parseLoop]
    | cons d rest => rw [List.length_cons, parseLoop, hfind]; simp
  | some r =>
    obtain ⟨before, open_⟩ := r
    have hsome : findByte 0x3C (c :: rest) = some (c :: before, open_) := by
      rw [findByte_cons hc, hfind]; rfl
    rw [parseLoop, hsome]
    have hpos : rest ≠ [] := by
      rintro rfl
      cases hfind
    obtain ⟨d, rest', rfl⟩ := List.exists_cons_of_ne_nil hpos
    have hlen := (findByte_eq hfind).1
    rw [List.length_cons, parseLoop, hfind]
    simp only [List.append_assoc, List.singleton_append]
    have hopen := parseOpen_length mode b (pending ++ c :: before) (findByte_eq hfind).2
    have hle : open_.length ≤ rest'.length + 1 := by
      have := congrArg List.length hlen
      simp only [List.length_append, List.length_cons] at this
      omega
    rw [parseLoop_fuel (by omega), parseLoop_fuel (by omega)]

/-- A '<' that reads as no tag is text. -/
theorem parseRest_lt {c : UInt8} {rest : Bytes} (h1 : c ≠ 0x21) (h2 : c ≠ 0x3F)
    (h : readTag mode ((0x3C :: c :: rest).take kMaxTagBytes) = none) (pending : Bytes) :
    parseRest mode b pending (0x3C :: c :: rest) =
      parseRest mode b (pending ++ [0x3C]) (c :: rest) := by
  have hopen : parseOpen mode b pending (0x3C :: c :: rest) =
    (b, pending ++ [0x3C], c :: rest) := by
    have hcomment : (ascii "<!--").isPrefixOf (0x3C :: c :: rest) = false := by
      have : (0x21 == c) = false := beq_eq_false_iff_ne.2 (Ne.symm h1)
      simp [ascii, List.isPrefixOf, this]
    have hdata : (ascii "<![CDATA[").isPrefixOf (0x3C :: c :: rest) = false := by
      have : (0x21 == c) = false := beq_eq_false_iff_ne.2 (Ne.symm h1)
      simp [ascii, List.isPrefixOf, this]
    have hdecl : (((0x3C :: c :: rest).drop 1).head? == some 0x21 ||
        ((0x3C :: c :: rest).drop 1).head? == some 0x3F) = false := by
      simp [h1, h2]
    unfold parseOpen
    rw [hcomment, hdata, hdecl, h]
    rfl
  have hfind : findByte 0x3C (0x3C :: c :: rest) = some ([], 0x3C :: c :: rest) :=
    @findByte_append 0x3C [] (c :: rest) (by simp)
  rw [parseRest, List.length_cons, parseLoop, hfind]
  simp only [List.append_nil, hopen]
  exact parseLoop_fuel (Nat.le_refl _)

/-- A tag behind pending text. -/
theorem parseRest_reads {l rest : Bytes} {tag : Tag} (hl : Reads mode l tag)
    (hname : (tag.name == ascii "script" || tag.name == ascii "style") = false) (pending : Bytes) :
    parseRest mode b pending (l ++ rest) =
      parseRest mode ((b.text pending).apply mode tag) [] rest := by
  obtain ⟨l', rfl⟩ : ∃ l', l = 0x3C :: l' := by
    have hstart := hl.starts.1
    cases l with
    | nil => cases hstart
    | cons a l' => exact ⟨l', by rw [Option.some.inj hstart]⟩
  have hfind : findByte 0x3C (0x3C :: l' ++ rest) = some ([], 0x3C :: l' ++ rest) :=
    @findByte_append 0x3C [] (l' ++ rest) (by simp)
  have hlength : (0x3C :: l' ++ rest).length = l'.length + rest.length + 1 := by simp
  rw [parseRest, hlength, parseLoop, hfind]
  simp only [List.append_nil, parseOpen_reads hl hname]
  exact parseLoop_fuel (by omega)

end Steps

/-! ## Inside an open element -/

/-- An open element and what is open around it: none of it is inline. -/
structure Around where
  tag : Bytes
  attrs : List (Bytes × Bytes)
  below : List Frame
  root : List MarkupNode
  outer : ∀ t ∈ tag :: below.map Frame.tag, t ∉ inlineNames

namespace Around
variable (a : Around)

/-- A tree that grows inside the element: its root is the element's children. -/
def place (c : Builder) : Builder := ⟨c.frames ++ ⟨a.tag, a.attrs, c.root⟩ :: a.below, a.root⟩

theorem place_frames (c : Builder) :
    (a.place c).frames = c.frames ++ ⟨a.tag, a.attrs, c.root⟩ :: a.below := rfl

theorem place_addChild (c : Builder) (node : MarkupNode) :
    (a.place c).addChild node = a.place (c.addChild node) := by
  obtain ⟨frames, root⟩ := c
  cases frames with
  | nil => rfl
  | cons f frames => rfl

theorem place_text (c : Builder) (raw : Bytes) : (a.place c).text raw = a.place (c.text raw) := by
  obtain ⟨frames, root⟩ := c
  unfold Builder.text
  split
  · rfl
  · cases frames with
    | nil => rfl
    | cons f frames => rfl

theorem place_pop {c : Builder} (h : c.frames ≠ []) : (a.place c).pop = a.place c.pop := by
  obtain ⟨frames, root⟩ := c
  cases frames with
  | nil => exact absurd rfl h
  | cons f frames => exact a.place_addChild ⟨frames, root⟩ _

end Around

theorem length_frames_addChild (c : Builder) (node : MarkupNode) :
    (c.addChild node).frames.length = c.frames.length := by
  obtain ⟨frames, root⟩ := c
  cases frames with
  | nil => rfl
  | cons f frames => rfl

theorem length_frames_pop (c : Builder) : c.pop.frames.length = c.frames.length - 1 := by
  obtain ⟨frames, root⟩ := c
  cases frames with
  | nil => rfl
  | cons f frames => exact length_frames_addChild ⟨frames, root⟩ _

theorem Around.place_popN (a : Around) : ∀ (n : Nat) {c : Builder}, n ≤ c.frames.length →
    (a.place c).popN n = a.place (c.popN n) := by
  intro n
  induction n with
  | zero => intro c _; rfl
  | succ n ih =>
    intro c h
    have hne : c.frames ≠ [] := by
      intro he
      rw [he] at h
      cases h
    rw [Builder.popN, Builder.popN, a.place_pop hne]
    refine ih ?_
    rw [length_frames_pop]
    omega

theorem closeUpTo_append {targets : List Bytes} {boundary : Bytes → Bool} {base : List Frame}
    (hbase : ∀ f ∈ base, f.tag ∉ targets) : ∀ frames : List Frame,
    closeUpTo targets boundary (frames ++ base) = closeUpTo targets boundary frames := by
  intro frames
  induction frames with
  | nil =>
    induction base with
    | nil => rfl
    | cons f base ih =>
      show closeUpTo targets boundary (f :: base) = none
      rw [closeUpTo, if_neg (hbase f List.mem_cons_self)]
      split
      · rfl
      · have hnone := ih fun g hg => hbase g (List.mem_cons_of_mem f hg)
        rw [List.nil_append] at hnone
        rw [hnone]
        rfl
  | cons f frames ih => rw [List.cons_append, closeUpTo, closeUpTo, ih]

theorem closeUpTo_le {targets : List Bytes} {boundary : Bytes → Bool} :
    ∀ {frames : List Frame} {n : Nat},
    closeUpTo targets boundary frames = some n → n ≤ frames.length := by
  intro frames
  induction frames with
  | nil => intro n h; cases h
  | cons f frames ih =>
    intro n h
    rw [closeUpTo] at h
    split at h
    · cases h
      exact Nat.succ_le_succ (Nat.zero_le _)
    · split at h
      · cases h
      · obtain ⟨m, hm, rfl⟩ := Option.map_eq_some_iff.1 h
        exact Nat.succ_le_succ (ih hm)

namespace Around
variable (a : Around)

theorem outer_frames (c : Builder) : ∀ f ∈ (⟨a.tag, a.attrs, c.root⟩ : Frame) :: a.below,
    f.tag ∉ inlineNames := by
  rintro f (_ | ⟨_, hf⟩)
  · exact a.outer _ List.mem_cons_self
  · exact a.outer _ (List.mem_cons_of_mem _ (List.mem_map_of_mem hf))

/-- Among the inline tags only a paragraph closes anything. -/
theorem place_implicitClose {name : Bytes} (h : name ∈ inlineNames) (c : Builder) :
    (a.place c).implicitClose name = a.place (c.implicitClose name) := by
  have hall : ∀ t ∈ inlineNames, (t == ascii "td" || t == ascii "th") = false ∧
    (t == ascii "tr") = false ∧
      (t == ascii "li") = false := by decide
  obtain ⟨hcell, hrow, hitem⟩ := hall name h
  unfold Builder.implicitClose
  simp only [hcell, hrow, hitem, Bool.false_eq_true, if_false]
  split
  · have hbase : ∀ f ∈ (⟨a.tag, a.attrs, c.root⟩ : Frame) :: a.below, f.tag ∉ [ascii "p"] := by
      intro f hf hp
      refine a.outer_frames c f hf ?_
      rw [List.mem_singleton.1 hp]
      decide
    rw [a.place_frames, closeUpTo_append hbase]
    cases hn : closeUpTo [ascii "p"]
      (fun tag => tag != ascii "p" && decide (tag ∈ kHtmlBlockTags)) c.frames with
    | none => rfl
    | some n => exact a.place_popN n (closeUpTo_le hn)
  · rfl

/-- `open` with `depth` elements open around the tree. -/
def openAt (depth : Nat) (c : Builder) (tag : Tag) : Builder :=
  let c := c.implicitClose tag.name
  if !(tag.selfClosing || decide (tag.name ∈ kVoidTags)) &&
    decide (c.frames.length + depth + 1 ≤ kMaxMarkupDepth)
  then { c with frames := ⟨tag.name, tag.attrs, []⟩ :: c.frames }
  else c.addChild (.element tag.name tag.attrs [])

theorem place_openTag {tag : Tag} (h : tag.name ∈ inlineNames) (c : Builder) :
    (a.place c).openTag .html tag = a.place (openAt (a.below.length + 1) c tag) := by
  have hlength : ∀ c' : Builder, (a.place c').frames.length + 1 =
      c'.frames.length + (a.below.length + 1) + 1 := by
    intro c'
    simp [place]
  unfold Builder.openTag openAt
  simp only [if_true, a.place_implicitClose h, hlength, beq_self_eq_true, Bool.true_and]
  split
  · rfl
  · exact a.place_addChild _ _

theorem place_closeTag {name : Bytes} (h : name ∈ inlineNames) (c : Builder) :
    (a.place c).closeTag name = a.place (c.closeTag name) := by
  have hnone : ((⟨a.tag, a.attrs, c.root⟩ : Frame) :: a.below).findIdx? (·.tag == name) = none := by
    rw [List.findIdx?_eq_none_iff]
    intro f hf
    rw [beq_eq_false_iff_ne]
    rintro rfl
    exact a.outer_frames c f hf h
  have hfind : (c.frames ++ ⟨a.tag, a.attrs, c.root⟩ :: a.below).findIdx? (·.tag == name) =
      c.frames.findIdx? (·.tag == name) := by
    rw [List.findIdx?_append, hnone]
    simp
  unfold Builder.closeTag
  rw [a.place_frames, hfind]
  cases hi : c.frames.findIdx? (·.tag == name) with
  | none => rfl
  | some i => exact a.place_popN (i + 1) (List.findIdx?_eq_some_iff_getElem.1 hi).1

/-- An inline tag acts inside the element. -/
def applyAt (depth : Nat) (c : Builder) (tag : Tag) : Builder :=
  if tag.closing then c.closeTag tag.name else openAt depth c tag

theorem place_apply {tag : Tag} (h : tag.name ∈ inlineNames) (c : Builder) :
    (a.place c).apply .html tag = a.place (applyAt (a.below.length + 1) c tag) := by
  unfold Builder.apply applyAt
  split
  · exact a.place_closeTag h c
  · exact a.place_openTag h c

end Around

/-! ## Only inline elements are open -/

/-- Text and inline elements, all the way down. -/
inductive MarkupNode.OnlyInline : MarkupNode → Prop
  | text (text : Bytes) : OnlyInline (.text text)
  | element {tag : Bytes} {attrs : List (Bytes × Bytes)} {children : List MarkupNode}
      (htag : tag ∈ inlineNames)
      (hchildren : ∀ node ∈ children, OnlyInline node) : OnlyInline (.element tag attrs children)

/-- Every element of the tree is inline, the open ones too. -/
structure Builder.OnlyInline (c : Builder) : Prop where
  tags : ∀ f ∈ c.frames, f.tag ∈ inlineNames
  children : ∀ f ∈ c.frames, ∀ node ∈ f.children, node.OnlyInline
  root : ∀ node ∈ c.root, node.OnlyInline

theorem onlyInline_extendText {nodes : List MarkupNode} (h : ∀ node ∈ nodes, node.OnlyInline)
    (raw : Bytes) :
    ∀ node ∈ extendText nodes raw, node.OnlyInline := by
  intro node hnode
  unfold extendText at hnode
  split at hnode
  · rcases List.mem_append.1 hnode with hnode | hnode
    · exact h node (List.mem_of_mem_dropLast hnode)
    · rw [List.mem_singleton.1 hnode]
      exact .text _
  · rcases List.mem_append.1 hnode with hnode | hnode
    · exact h node hnode
    · rw [List.mem_singleton.1 hnode]
      exact .text _

namespace Builder.OnlyInline
variable {c : Builder}

/-- Another list of inline children for the innermost element. -/
theorem change {f f' : Frame} {frames : List Frame} {root : List MarkupNode}
    (h : Builder.OnlyInline ⟨f :: frames, root⟩) (htag : f'.tag ∈ inlineNames)
    (hchildren : ∀ node ∈ f'.children, node.OnlyInline) :
    Builder.OnlyInline ⟨f' :: frames, root⟩ where
  tags := by
    rintro g (_ | ⟨_, hg⟩)
    · exact htag
    · exact h.tags g (List.mem_cons_of_mem f hg)
  children := by
    rintro g (_ | ⟨_, hg⟩)
    · exact hchildren
    · exact h.children g (List.mem_cons_of_mem f hg)
  root := h.root

theorem addChild (h : c.OnlyInline) {node : MarkupNode} (hnode : node.OnlyInline) :
    (c.addChild node).OnlyInline := by
  obtain ⟨frames, root⟩ := c
  have hadd : ∀ {nodes : List MarkupNode}, (∀ n ∈ nodes, n.OnlyInline) →
    ∀ n ∈ nodes ++ [node], n.OnlyInline := by
    intro nodes hnodes n hn
    rcases List.mem_append.1 hn with hn | hn
    · exact hnodes n hn
    · rw [List.mem_singleton.1 hn]
      exact hnode
  cases frames with
  | nil => exact ⟨h.tags, h.children, hadd h.root⟩
  | cons f frames =>
      exact h.change (h.tags f List.mem_cons_self) (hadd (h.children f List.mem_cons_self))

theorem text (h : c.OnlyInline) (raw : Bytes) : (c.text raw).OnlyInline := by
  obtain ⟨frames, root⟩ := c
  unfold Builder.text
  split
  · exact h
  · cases frames with
    | nil => exact ⟨h.tags, h.children, onlyInline_extendText h.root raw⟩
    | cons f frames =>
      exact h.change (h.tags f List.mem_cons_self)
        (onlyInline_extendText (h.children f List.mem_cons_self) raw)

theorem pop (h : c.OnlyInline) : c.pop.OnlyInline := by
  obtain ⟨frames, root⟩ := c
  cases frames with
  | nil => exact h
  | cons f frames =>
    have hrest : Builder.OnlyInline ⟨frames, root⟩ :=
      ⟨fun g hg => h.tags g (List.mem_cons_of_mem f hg),
      fun g hg => h.children g (List.mem_cons_of_mem f hg), h.root⟩
    exact hrest.addChild (.element (h.tags f List.mem_cons_self) (h.children f List.mem_cons_self))

theorem popN (n : Nat) : ∀ {c : Builder}, c.OnlyInline → (c.popN n).OnlyInline := by
  induction n with
  | zero => intro c h; exact h
  | succ n ih => intro c h; exact ih h.pop

theorem implicitClose (h : c.OnlyInline) (name : Bytes) : (c.implicitClose name).OnlyInline := by
  obtain ⟨n, hn⟩ := implicitClose_popN c name
  rw [hn]
  exact popN n h

theorem closeTag (h : c.OnlyInline) (name : Bytes) : (c.closeTag name).OnlyInline := by
  obtain ⟨n, hn⟩ := closeTag_popN c name
  rw [hn]
  exact popN n h

theorem applyAt (h : c.OnlyInline) (depth : Nat) {tag : Tag} (htag : tag.name ∈ inlineNames) :
    (Around.applyAt depth c tag).OnlyInline := by
  unfold Around.applyAt
  split
  · exact h.closeTag tag.name
  · have hclosed := h.implicitClose tag.name
    unfold Around.openAt
    dsimp only
    split
    · refine ⟨?_, ?_, hclosed.root⟩
      · rintro f (_ | ⟨_, hf⟩)
        · exact htag
        · exact hclosed.tags f hf
      · rintro f (_ | ⟨_, hf⟩) node hnode
        · cases hnode
        · exact hclosed.children f hf node hnode
    · exact hclosed.addChild (.element htag (by simp))

end Builder.OnlyInline

/-! ## Parsing content -/

theorem inlineNames_raw {name : Bytes} (h : name ∈ inlineNames) :
    (name == ascii "script" || name == ascii "style") = false := by
  have hall : ∀ t ∈ inlineNames, (t == ascii "script" || t == ascii "style") = false := by decide
  exact hall name h

theorem InlineTag.read_name (t : InlineTag) : t.read.name ∈ inlineNames :=
  List.contains_iff_mem.1 t.inline

/-- **Content stays inside its element**: some tree grows there, the same one
in every element at that depth. -/
theorem parse_content (depth : Nat) : ∀ (n : Nat) {l : Bytes}, l.length ≤ n → Content l →
    ∀ {c : Builder}, c.OnlyInline → ∀ pending : Bytes,
    ∃ (c' : Builder) (pending' : Bytes), c'.OnlyInline ∧ ∀ a : Around, a.below.length + 1 = depth →
      ∀ rest : Bytes,
      parseRest .html (a.place c) pending (l ++ rest) =
        parseRest .html (a.place c') pending' rest := by
  intro n
  induction n with
  | zero =>
    intro l hn _ c hc pending
    rw [List.eq_nil_of_length_eq_zero (Nat.le_zero.1 hn)]
    exact ⟨c, pending, hc, fun a _ rest => rfl⟩
  | succ n ih =>
    intro l hn hl c hc pending
    cases hl with
    | nil => exact ⟨c, pending, hc, fun a _ rest => rfl⟩
    | @byte b l hb hl =>
      rw [List.length_cons] at hn
      obtain ⟨c', pending', hc', hparse⟩ := ih (by omega) hl hc (pending ++ [b])
      refine ⟨c', pending', hc', fun a ha rest => ?_⟩
      rw [List.cons_append, parseRest_byte hb]
      exact hparse a ha rest
    | @tag t l hl =>
      rw [List.length_cons, List.length_append] at hn
      by_cases hlen : t.body.length + 1 ≤ kMaxTagBytes
      · have hread := t.reads hlen
        have happly := ((hc.text pending).applyAt depth t.read_name)
        obtain ⟨c', pending', hc', hparse⟩ := ih (by omega) hl happly []
        refine ⟨c', pending', hc', fun a ha rest => ?_⟩
        have hstep := @parseRest_reads .html (a.place c) (0x3C :: t.body) (l ++ rest) t.read hread
          (inlineNames_raw t.read_name) pending
        rw [a.place_text, a.place_apply t.read_name, ha, hparse a ha rest] at hstep
        rw [← hstep]
        simp
      · -- past the window: its '<' is text, and the rest is content
        obtain ⟨c', pending', hc', hparse⟩ :=
          ih (l := t.body ++ l) (by rw [List.length_append]; omega)
          (t.content hl) hc (pending ++ [0x3C])
        refine ⟨c', pending', hc', fun a ha rest => ?_⟩
        obtain ⟨start, hstart, hgt⟩ := t.body_eq
        obtain ⟨d, body, hbody⟩ : ∃ d body, t.body = d :: body := by
          cases hb : t.body with
          | nil => rw [hb] at hstart; simp at hstart
          | cons d body => exact ⟨d, body, rfl⟩
        have hwindow : 0x3E ∉ (0x3C :: t.body ++ (l ++ rest)).take kMaxTagBytes := by
          have hfront : (0x3C :: t.body ++ (l ++ rest)) =
            (0x3C :: start) ++ (0x3E :: (l ++ rest)) := by
            rw [hstart]
            simp
          have hshort : kMaxTagBytes ≤ (0x3C :: start).length := by
            have := congrArg List.length hstart
            simp only [List.length_append, List.length_cons, List.length_nil] at this ⊢
            omega
          rw [hfront, List.take_append_of_le_length hshort]
          intro hm
          rcases List.mem_cons.1 (List.mem_of_mem_take hm) with he | he
          · cases he
          · exact hgt he
        have hd : d ≠ 0x21 ∧ d ≠ 0x3F := by
          obtain ⟨x, name, hname⟩ := List.exists_cons_of_ne_nil t.name_ne
          have hx := isAlpha_ne (t.alpha x (by rw [hname]; exact List.mem_cons_self))
          rw [InlineTag.body, hname] at hbody
          cases hslash : t.slash with
          | true =>
            rw [hslash] at hbody
            cases hbody
            decide
          | false =>
            rw [hslash] at hbody
            cases hbody
            exact ⟨hx.1, hx.2.1⟩
        have hstep := @parseRest_lt .html (a.place c) d (body ++ (l ++ rest)) hd.1 hd.2
          (readTag_none .html (by simpa [hbody] using hwindow)) pending
        rw [← hparse a ha rest]
        simpa [hbody] using hstep

/-! ## Closing the element -/

theorem popN_succ (n : Nat) : ∀ c : Builder, c.popN (n + 1) = (c.popN n).pop := by
  induction n with
  | zero => intro c; rfl
  | succ n ih => intro c; exact ih c.pop

theorem length_frames_popN (n : Nat) :
    ∀ c : Builder, (c.popN n).frames.length = c.frames.length - n := by
  induction n with
  | zero => intro c; rfl
  | succ n ih =>
    intro c
    rw [Builder.popN, ih, length_frames_pop]
    omega

/-- The nodes of a tree when everything open is closed. -/
def Builder.nodes (c : Builder) : List MarkupNode := (c.popN c.frames.length).root

/-- The element's close tag closes what is open in it. -/
theorem Around.place_close (a : Around) {c : Builder} (hc : c.OnlyInline) :
    (a.place c).closeTag a.tag =
      Builder.addChild ⟨a.below, a.root⟩ (.element a.tag a.attrs c.nodes) := by
  have hinner : c.frames.findIdx? (·.tag == a.tag) = none := by
    rw [List.findIdx?_eq_none_iff]
    intro f hf
    rw [beq_eq_false_iff_ne]
    intro he
    exact a.outer _ List.mem_cons_self (he ▸ hc.tags f hf)
  have hfind : (a.place c).frames.findIdx? (·.tag == a.tag) = some c.frames.length := by
    show (c.frames ++ ⟨a.tag, a.attrs, c.root⟩ :: a.below).findIdx? (·.tag == a.tag) = _
    rw [List.findIdx?_append, hinner, List.findIdx?_cons]
    simp
  have hframes : (c.popN c.frames.length).frames = [] := by
    refine List.eq_nil_of_length_eq_zero ?_
    rw [length_frames_popN, Nat.sub_self]
  unfold Builder.closeTag
  rw [hfind]
  show (a.place c).popN (c.frames.length + 1) = _
  rw [popN_succ, a.place_popN _ (Nat.le_refl _)]
  unfold Builder.nodes Around.place
  rw [hframes]
  rfl

/-- Behind content, the close tag. -/
theorem parseRest_close (a : Around) {close : Bytes}
    (hclose : Reads .html close ⟨a.tag, true, false, []⟩)
    (hraw : (a.tag == ascii "script" || a.tag == ascii "style") = false) {c : Builder}
    (hc : c.OnlyInline)
    (pending rest : Bytes) :
    parseRest .html (a.place c) pending (close ++ rest) = parseRest .html
      (Builder.addChild ⟨a.below, a.root⟩
        (.element a.tag a.attrs (c.text pending).nodes)) [] rest := by
  rw [parseRest_reads hclose hraw pending, a.place_text]
  show parseRest .html ((a.place (c.text pending)).closeTag a.tag) [] rest = _
  rw [a.place_close (hc.text pending)]

theorem onlyInline_empty : Builder.OnlyInline ⟨[], []⟩ := ⟨by simp, by simp, by simp⟩

/-- **An element with inline content is one element**, with inline elements in
it only. Its children depend on the content and the depth only. -/
theorem parse_element (depth : Nat) {l : Bytes} (hl : Content l) :
    ∃ body : List MarkupNode, (∀ node ∈ body, node.OnlyInline) ∧
      ∀ (a : Around) (close rest : Bytes), a.below.length + 1 = depth →
      Reads .html close ⟨a.tag, true, false, []⟩ →
      (a.tag == ascii "script" || a.tag == ascii "style") = false →
      parseRest .html (a.place ⟨[], []⟩) [] (l ++ (close ++ rest)) =
        parseRest .html
          (Builder.addChild ⟨a.below, a.root⟩ (.element a.tag a.attrs body)) [] rest := by
  obtain ⟨c, pending, hc, hparse⟩ :=
    parse_content depth l.length (Nat.le_refl _) hl onlyInline_empty []
  refine ⟨(c.text pending).nodes, (Builder.OnlyInline.popN _ (hc.text pending)).root,
    fun a close rest ha hclose hraw => ?_⟩
  rw [hparse a ha, parseRest_close a hclose hraw hc]

end VlmConvert.L1

import VlmConvert.L2Table.LatexCellText

/-!
# Rendering a LaTeX cell

A paragraph of an escaped cell text is cut into stretches (`stretches`): text
with its line breaks, and delimiter runs. The stretches are the pieces of
`render_paragraph` (`src/mapping/markdown_inline.cpp`), their emphasis is settled
by `processEmphasis_spans`, and what they show has the words of the paragraph.

Results:

* `renderParagraph_parts`: a paragraph is rendered as its stretches.
* `sameWords_stretches`: what they show.
-/
namespace VlmConvert.L2.Latex

open Bytes L1

/-! ## Neighbours -/

/-- Bytes that no run can tell apart. -/
structure Alike (b b' : UInt8) : Prop where
  space : isSpace b = isSpace b'
  punct : mdPunct b = mdPunct b'
  mark : ∀ c, isMark c = true → (b == c) = (b' == c)

theorem Alike.refl (b : UInt8) : Alike b b := ⟨rfl, rfl, fun _ _ => rfl⟩

theorem Alike.symm {b b' : UInt8} (h : Alike b b') : Alike b' b :=
  ⟨h.space.symm, h.punct.symm, fun c hc => (h.mark c hc).symm⟩

theorem Alike.trans {a b c : UInt8} (h : Alike a b) (h' : Alike b c) : Alike a c :=
  ⟨h.space.trans h'.space, h.punct.trans h'.punct, fun d hd => (h.mark d hd).trans (h'.mark d hd)⟩

theorem space_facts {b : UInt8} (h : isSpace b = true) : mdPunct b = false ∧ isMark b = false := by
  have hall : ∀ n : Fin 256, isSpace (UInt8.ofFin n) = true →
      mdPunct (UInt8.ofFin n) = false ∧ isMark (UInt8.ofFin n) = false := by
    decide +kernel
  exact hall b.toFin h

theorem beq_of_not_mark {b c : UInt8} (hb : isMark b = false) (hc : isMark c = true) :
    (b == c) = false := by
  rw [beq_eq_false_iff_ne]
  rintro rfl
  rw [hb] at hc
  cases hc

theorem alike_spaces {b b' : UInt8} (h : isSpace b = true) (h' : isSpace b' = true) :
    Alike b b' := by
  obtain ⟨hpunct, hmark⟩ := space_facts h
  obtain ⟨hpunct', hmark'⟩ := space_facts h'
  exact ⟨h.trans h'.symm, hpunct.trans hpunct'.symm, fun c hc =>
    (beq_of_not_mark hmark hc).trans (beq_of_not_mark hmark' hc).symm⟩

/-- A sign and the ends of its entity are punctuation. -/
theorem alike_sign (s : Sign) : Alike s.char 0x26 ∧ Alike s.char 0x3B := by
  have hpunct : isSpace s.char = false ∧ mdPunct s.char = true ∧ isMark s.char = false := by
    rcases s.char_eq with h | h | h
    all_goals
      rw [h]
      decide
  obtain ⟨hspace, hpunct, hmark⟩ := hpunct
  exact ⟨⟨hspace, hpunct,
    fun c hc => (beq_of_not_mark hmark hc).trans (beq_of_not_mark rfl hc).symm⟩,
    ⟨hspace, hpunct, fun c hc => (beq_of_not_mark hmark hc).trans (beq_of_not_mark rfl hc).symm⟩⟩

theorem delimiter_alike {c b b' a a' : UInt8} {run : Nat} (hb : Alike b b') (ha : Alike a a') :
    delimiter c run b a = delimiter c run b' a' := by
  simp only [delimiter, hb.space, hb.punct, ha.space, ha.punct]

theorem CellPart.place_alike {part : CellPart} {open_ : List (UInt8 × Nat)} {b b' a a' : UInt8}
    (hproper : part.proper = true) (hb : Alike b b') (ha : Alike a a') :
    part.place open_ b a = part.place open_ b' a' := by
  cases part with
  | plain c => rfl
  | sign s => rfl
  | mark role c run =>
    simp only [CellPart.proper, Bool.and_eq_true] at hproper
    simp only [CellPart.place, delimiter_alike hb ha, hb.mark c hproper.1, ha.mark c hproper.1]

theorem place_alike {parts : List CellPart} {open_ : List (UInt8 × Nat)} {b b' : UInt8}
    (hproper : ∀ part ∈ parts, part.proper = true) (hb : Alike b b') :
    place open_ b parts = place open_ b' parts := by
  cases parts with
  | nil => rfl
  | cons part rest =>
    rw [place, place, CellPart.place_alike (hproper part List.mem_cons_self) hb (Alike.refl _)]

/-! ## Blanks at the ends -/

theorem isBlank_edge {part : CellPart} (h : part.isBlank = true) :
    isSpace part.edge = true ∧ ∀ open_ b a, part.place open_ b a = some open_ := by
  cases part with
  | plain c => exact ⟨isSpace_of_isBlank h, fun _ _ _ => rfl⟩
  | sign s => cases h
  | mark role c run => cases h

section Ends
variable {open_ : List (UInt8 × Nat)}

theorem place_dropWhile :
    ∀ {parts : List CellPart} {b : UInt8}, (∀ part ∈ parts, part.proper = true) →
    isSpace b = true → place open_ b (parts.dropWhile CellPart.isBlank) = place open_ b parts := by
  intro parts
  induction parts with
  | nil => intro b _ _; rfl
  | cons part rest ih =>
    intro b hproper hb
    have hrest := fun p hp => hproper p (List.mem_cons_of_mem part hp)
    by_cases hpart : part.isBlank = true
    · obtain ⟨hedge, hplace⟩ := isBlank_edge hpart
      rw [List.dropWhile_cons_of_pos hpart, ih hrest hb, place, hplace]
      exact place_alike hrest (alike_spaces hb hedge)
    · rw [List.dropWhile_cons_of_neg hpart]

/-- A run at the end of a text stands as in front of a blank. -/
theorem place_append_blank {x : CellPart} (hx : x.isBlank = true) (more : List CellPart) :
    ∀ {parts : List CellPart} {open_ : List (UInt8 × Nat)} {b : UInt8},
    (∀ part ∈ parts, part.proper = true) →
    place open_ b (parts ++ x :: more) = (place open_ b parts).bind fun open_ =>
      place open_ x.edge more := by
  obtain ⟨hedge, hplace⟩ := isBlank_edge hx
  intro parts
  induction parts with
  | nil =>
    intro open_ b _
    show (x.place open_ b (edgeOf more)).bind (fun open_ => place open_ x.edge more) = _
    rw [hplace]
    rfl
  | cons part rest ih =>
    intro open_ b hproper
    have hbehind : Alike (edgeOf (rest ++ x :: more)) (edgeOf rest) := by
      cases rest with
      | nil => exact alike_spaces hedge rfl
      | cons next rest => exact Alike.refl _
    rw [List.cons_append, place, place,
      CellPart.place_alike (hproper part List.mem_cons_self) (Alike.refl b) hbehind,
        Option.bind_assoc]
    simp only [ih fun p hp => hproper p (List.mem_cons_of_mem part hp)]

theorem place_rdropWhile {b : UInt8} :
    ∀ {parts : List CellPart}, (∀ part ∈ parts, part.proper = true) →
    place open_ b (parts.rdropWhile CellPart.isBlank) = place open_ b parts := by
  intro parts
  induction parts using List.reverseRecOn with
  | nil => intro _; rfl
  | append_singleton parts x ih =>
    intro hproper
    have hrest := fun p hp => hproper p (List.mem_append_left [x] hp)
    by_cases hx : x.isBlank = true
    · rw [List.rdropWhile_concat_pos _ _ _ hx, ih hrest, place_append_blank hx [] hrest]
      cases place open_ b parts <;> rfl
    · rw [List.rdropWhile_concat_neg _ _ _ hx]

end Ends

theorem trimsAs_escaped {part : CellPart} (hproper : part.proper = true) :
    TrimsAs Bytes.isBlank part.isBlank part.escaped := by
  cases part with
  | plain c =>
    rw [escaped_plain hproper]
    exact trimsAs_source hproper
  | sign s =>
    show TrimsAs Bytes.isBlank false ([s.char].flatMap escapeHtmlByte)
    rw [List.flatMap_singleton]
    have hblank : Bytes.isBlank s.char = false := by
      rcases s.char_eq with h | h | h
      all_goals
        rw [h]
        rfl
    rw [← hblank]
    exact trimsAs_escapeHtmlByte s.char
  | mark role c run =>
    have hmark := hproper
    simp only [CellPart.proper, Bool.and_eq_true, bne_iff_ne] at hmark
    rw [escaped_mark hmark.1]
    exact trimsAs_replicate hmark.1 hmark.2

/-- A paragraph without the blanks at its ends. -/
def trimParts (parts : List CellPart) : List CellPart :=
  (parts.dropWhile CellPart.isBlank).rdropWhile CellPart.isBlank

section Trimmed
variable {parts : List CellPart} (hproper : ∀ part ∈ parts, part.proper = true)

theorem mem_trimParts {part : CellPart} (h : part ∈ trimParts parts) : part ∈ parts :=
  (List.dropWhile_suffix CellPart.isBlank).subset ((List.rdropWhile_prefix _ _).subset h)

theorem any_trimParts (f : CellPart → Bool) (h : ∀ part, part.isBlank = true → f part = false) :
    (trimParts parts).any f = parts.any f := by
  obtain ⟨lead, tail, hsplit, hlead, htail⟩ := trimmed_split parts CellPart.isBlank
  have hnone : ∀ l : List CellPart, (∀ part ∈ l, part.isBlank = true) → l.any f = false := by
    intro l hl
    rw [List.any_eq_false]
    intro part hpart
    rw [h part (hl part hpart)]
    exact Bool.false_ne_true
  conv_rhs => rw [hsplit]
  rw [List.any_append, List.any_append, hnone lead hlead, hnone tail htail, Bool.false_or,
    Bool.or_false]
  rfl

theorem trimParts_eq_nil : trimParts parts = [] ↔ parts.all CellPart.isBlank = true := by
  rw [trimParts, List.rdropWhile_eq_nil_iff, List.all_eq_true]
  constructor
  · intro h part hpart
    rw [← List.takeWhile_append_dropWhile (p := CellPart.isBlank) (l := parts)] at hpart
    rcases List.mem_append.1 hpart with hpart | hpart
    · exact List.mem_takeWhile_imp hpart
    · exact h part hpart
  · intro h part hpart
    exact h part ((List.dropWhile_suffix CellPart.isBlank).subset hpart)

include hproper

theorem place_trimParts {open_ : List (UInt8 × Nat)} :
    place open_ 0x20 (trimParts parts) = place open_ 0x20 parts := by
  rw [trimParts, place_rdropWhile fun part hpart =>
    hproper part ((List.dropWhile_suffix CellPart.isBlank).subset hpart),
      place_dropWhile hproper rfl]

theorem trim_escapedParts :
    trim (parts.flatMap CellPart.escaped) = (trimParts parts).flatMap CellPart.escaped :=
  trim_flatMap fun part hpart => trimsAs_escaped (hproper part hpart)

end Trimmed

/-! ## Stretches -/

/-- A stretch of a paragraph: text, or a delimiter run. -/
inductive Stretch
  | text (chunks : List Chunk)
  | mark (role : MarkRole) (p : Piece)

def openChunks : Nat → List Chunk
  | 0 => []
  | 1 => [.emphasis false false]
  | n + 2 => openChunks n ++ [.emphasis false true]

def closeChunks : Nat → List Chunk
  | 0 => []
  | 1 => [.emphasis true false]
  | n + 2 => .emphasis true true :: closeChunks n

/-- What a stretch is rendered as. -/
def Stretch.chunks : Stretch → List Chunk
  | .text chunks => chunks
  | .mark .loose p => List.replicate p.count (.byte p.ch)
  | .mark .opens p => openChunks p.count
  | .mark .closes p => closeChunks p.count

def Stretch.span : Stretch → Span
  | .text chunks => .text (chunks.flatMap Chunk.html)
  | .mark role p => .run role p

def flushChunks (buffer : List Chunk) : List Stretch :=
  if buffer.isEmpty then [] else [.text buffer]

/-- A line break: the blanks before it go. -/
def breakChunks (buffer : List Chunk) : List Chunk :=
  let kept := buffer.rdropWhile (· == .byte 0x20)
  kept ++ [.lineBreak (decide (buffer.length - kept.length ≥ 2))]

def isIndent (c : UInt8) : Bool := c == 0x20 || c == 0x09

/-- The stretches of a paragraph, behind `buffer`; `skip`: the indentation of
a line goes. -/
def stretches : List Chunk → Bool → UInt8 → List CellPart → List Stretch
  | buffer, _, _, [] => flushChunks buffer
  | buffer, skip, _, .plain c :: rest =>
    if skip && isIndent c then stretches buffer true c rest
    else if c == 0x0A then stretches (breakChunks buffer) true c rest
    else stretches (buffer ++ [.byte c]) false c rest
  | buffer, _, _, .sign s :: rest =>
    stretches (buffer ++ (escapeHtmlByte s.char).map .byte) false s.char rest
  | buffer, _, before, .mark role c run :: rest =>
    flushChunks buffer ++ .mark role (delimiter c run before (edgeOf rest)) ::
      stretches [] false c rest

/-! ## The stretches are the pieces -/

section Tokens
variable {prev : Option UInt8}

theorem tame_facts {c : UInt8} (h : isTame c = true) :
    c ≠ 0x3C ∧ c ≠ 0x5C ∧ c ≠ 0x60 ∧ c ≠ 0x24 := by
  simp only [isTame, Bool.and_eq_true, bne_iff_ne] at h
  exact ⟨h.1.1.1, h.1.1.2, h.1.2, h.2⟩

/-- A tame byte is a delimiter, a newline or text. -/
theorem token_tame {c : UInt8} (h : isTame c = true) (rest : Bytes) : token prev c rest =
    if isMark c then
      let run := ((c :: rest).takeWhile (· == c)).length
      let after := (c :: rest).drop run
      (.delim (delimiter c run (prev.getD 0x20) (after.head?.getD 0x20)), after)
    else if c == 0x0A then (.newline, rest.dropWhile isIndent)
    else (.raw (escapeByte c), rest) := by
  obtain ⟨hlt, hback, htick, hdollar⟩ := tame_facts h
  have htag : htmlTagEnd (c :: rest) = none := by simp [htmlTagEnd, hlt]
  unfold token
  simp only [beq_eq_false_iff_ne.2 hlt, beq_eq_false_iff_ne.2 hback, beq_eq_false_iff_ne.2 htick,
    beq_eq_false_iff_ne.2 hdollar, Bool.or_self, Bool.false_eq_true, if_false, Bool.false_and, htag]
  rfl

theorem lastPassed_append (l left : Bytes) : lastPassed (l ++ left) left = l.getLast? := by
  rw [lastPassed, List.length_append, Nat.add_sub_cancel, List.take_left]

/-- Text that is neither a delimiter nor a newline. -/
def isWord (c : UInt8) : Bool := isTame c && !isMark c && c != 0x0A

theorem piecesFrom_words : ∀ (w : Bytes) {n : Nat} {prev : Option UInt8} {buffer rest : Bytes},
    (∀ c ∈ w, isWord c = true) → (w ++ rest).length ≤ n →
    piecesFrom n prev buffer (w ++ rest) =
      piecesFrom (n - w.length) (w.getLast?.or prev) (buffer ++ w.flatMap escapeByte) rest := by
  intro w
  induction w with
  | nil => intro n prev buffer rest _ _; simp
  | cons c w ih =>
    intro n prev buffer rest h hn
    obtain ⟨m, rfl⟩ : ∃ m, n = m + 1 :=
      ⟨n - 1, by rw [List.cons_append, List.length_cons] at hn; omega⟩
    have hword := h c List.mem_cons_self
    simp only [isWord, Bool.and_eq_true, Bool.not_eq_true', bne_iff_ne] at hword
    have hpassed := lastPassed_append [c] (w ++ rest)
    rw [List.singleton_append] at hpassed
    rw [List.cons_append, piecesFrom, token_tame hword.1.1]
    simp only [hword.1.2, Bool.false_eq_true, if_false, beq_eq_false_iff_ne.2 hword.2, hpassed]
    rw [ih (fun b hb => h b (List.mem_cons_of_mem c hb)) (by simpa using hn)]
    have hlast : w.getLast?.or [c].getLast? = (c :: w).getLast?.or prev := by
      cases w with
      | nil => rfl
      | cons d w => simp [List.getLast?_cons]
    rw [hlast, List.flatMap_cons, List.append_assoc, List.length_cons]
    congr 1
    omega

end Tokens

theorem html_ne_nil (chunk : Chunk) : chunk.html ≠ [] := by
  cases chunk with
  | byte c =>
    simp only [Chunk.html, escapeByte]
    split
    · decide
    split
    · decide
    split
    · decide
    split
    · decide
    · exact List.cons_ne_nil c []
  | lineBreak hard => cases hard <;> decide
  | emphasis close strong => cases close <;> cases strong <;> decide

theorem flush_chunks (buffer : List Chunk) :
    flush (buffer.flatMap Chunk.html) = (flushChunks buffer).map fun s => s.span.piece := by
  cases buffer with
  | nil => rfl
  | cons chunk buffer =>
    have hne : ((chunk :: buffer).flatMap Chunk.html).isEmpty = false := by
      rw [List.isEmpty_eq_false_iff, List.flatMap_cons]
      exact fun h => html_ne_nil chunk (List.append_eq_nil_iff.1 h).1
    rw [flush, if_neg (by rw [hne]; exact Bool.false_ne_true)]
    rfl

theorem trimsAs_chunk (chunk : Chunk) : TrimsAs (· == 0x20) (chunk == .byte 0x20) chunk.html := by
  cases chunk with
  | byte c =>
    by_cases hc : c = 0x20
    · subst hc
      exact Or.inl ⟨rfl, by simp [Chunk.html, escapeByte]⟩
    · refine Or.inr ⟨by simpa using hc, ?_⟩
      simp only [Chunk.html, escapeByte]
      split
      · decide
      split
      · decide
      split
      · decide
      split
      · decide
      · simpa using hc
  | lineBreak hard => exact Or.inr ⟨rfl, by cases hard <;> decide⟩
  | emphasis close strong => exact Or.inr ⟨rfl, by cases close <;> cases strong <;> decide⟩

theorem breakLine_chunks (buffer : List Chunk) :
    breakLine (buffer.flatMap Chunk.html) = (breakChunks buffer).flatMap Chunk.html := by
  have hkept := rdropWhile_flatMap (l := buffer) fun chunk _ => trimsAs_chunk chunk
  obtain ⟨tail, hsplit, htail⟩ := rdropWhile_split buffer (· == .byte 0x20)
  have hlength : (tail.flatMap Chunk.html).length = tail.length := by
    rw [List.eq_replicate_of_mem fun chunk hchunk => beq_iff_eq.1 (htail chunk hchunk)]
    simp [Chunk.html, escapeByte, List.flatMap_replicate]
  have hdropped : (buffer.flatMap Chunk.html).length -
      ((buffer.rdropWhile (· == .byte 0x20)).flatMap Chunk.html).length =
      buffer.length - (buffer.rdropWhile (· == .byte 0x20)).length := by
    have hbytes := congrArg (fun l => (List.flatMap Chunk.html l).length) hsplit
    have hchunks := congrArg List.length hsplit
    simp only [List.flatMap_append, List.length_append] at hbytes hchunks
    omega
  unfold breakLine breakChunks
  dsimp only
  rw [hkept, hdropped, List.flatMap_append, List.flatMap_singleton, Chunk.html]
  by_cases htwo : buffer.length - (buffer.rdropWhile (· == .byte 0x20)).length ≥ 2
  · rw [if_pos htwo, if_pos (decide_eq_true htwo)]
  · rw [if_neg htwo, if_neg (by simpa using htwo)]

/-- The first byte of a text shows as its first part. -/
theorem alike_head {parts : List CellPart} (hproper : ∀ part ∈ parts, part.proper = true) :
    Alike ((parts.flatMap CellPart.escaped).head?.getD 0x20) (edgeOf parts) := by
  cases parts with
  | nil => exact Alike.refl _
  | cons part rest =>
    have hpart := hproper part List.mem_cons_self
    rw [List.flatMap_cons]
    cases part with
    | plain c =>
      rw [escaped_plain hpart]
      exact Alike.refl _
    | sign s =>
      have hfirst : ((CellPart.sign s).escaped ++ rest.flatMap CellPart.escaped).head?.getD 0x20 =
        0x26 := by
        show ((([s.char].flatMap escapeHtmlByte)) ++
          rest.flatMap CellPart.escaped).head?.getD 0x20 = 0x26
        rw [List.flatMap_singleton]
        rcases s.char_eq with h | h | h
        all_goals
          rw [h]
          rfl
      rw [hfirst]
      exact (alike_sign s).1.symm
    | mark role c run =>
      simp only [CellPart.proper, Bool.and_eq_true, bne_iff_ne] at hpart
      obtain ⟨n, rfl⟩ : ∃ n, run = n + 1 := ⟨run - 1, by omega⟩
      rw [escaped_mark hpart.1]
      exact Alike.refl _

theorem isWord_plain {c : UInt8} (h : isPlain c = true) (hc : c ≠ 0x0A) : isWord c = true := by
  obtain ⟨hlt, -, -, hback, hstar, hlow, htick, hdollar⟩ := isPlain_ne h
  simp [isWord, isTame, isMark, hlt, hback, hstar, hlow, htick, hdollar, hc]

theorem isWord_sign (s : Sign) : (∀ c ∈ escapeHtmlByte s.char, isWord c = true) ∧
    (escapeHtmlByte s.char).head?.all (fun c => !isIndent c) = true ∧
    (escapeHtmlByte s.char).getLast? = some 0x3B := by
  rcases s.char_eq with h | h | h
  all_goals
    rw [h]
    exact ⟨List.all_eq_true.1 (by decide), by decide, by decide⟩

/-- A place where the indentation of a line may go. -/
def behindIndent (skip : Bool) (l : Bytes) : Bytes := if skip then l.dropWhile isIndent else l

theorem behindIndent_eq {skip : Bool} {c : UInt8} {l : Bytes} (h : isIndent c = false) :
    behindIndent skip (c :: l) = c :: l := by
  unfold behindIndent
  split
  · exact List.dropWhile_cons_of_neg (by simp [h])
  · rfl

theorem behindIndent_append {skip : Bool} {l : Bytes} (hne : l ≠ [])
    (h : l.head?.all (fun c => !isIndent c) = true) (rest : Bytes) :
    behindIndent skip (l ++ rest) = l ++ rest := by
  obtain ⟨c, l, rfl⟩ := List.exists_cons_of_ne_nil hne
  exact behindIndent_eq (by simpa using h)

/-- The byte before the text of a line is blank. -/
theorem lastPassed_indent (l : Bytes) :
    ∃ b, lastPassed (0x0A :: l) (l.dropWhile isIndent) = some b ∧ isSpace b = true := by
  have hsplit : 0x0A :: l = (0x0A :: l.takeWhile isIndent) ++ l.dropWhile isIndent := by
    rw [List.cons_append, List.takeWhile_append_dropWhile]
  have hlast : (0x0A :: l.takeWhile isIndent).getLast? =
      some ((0x0A :: l.takeWhile isIndent).getLast (List.cons_ne_nil _ _)) :=
    List.getLast?_eq_getLast_of_ne_nil _
  refine ⟨(0x0A :: l.takeWhile isIndent).getLast (List.cons_ne_nil _ _), ?_, ?_⟩
  · rw [← hlast, ← lastPassed_append, ← hsplit]
  · have hmem := List.getLast_mem (List.cons_ne_nil (0x0A : UInt8) (l.takeWhile isIndent))
    rcases List.mem_cons.1 hmem with h | h
    · rw [h]
      rfl
    · have hindent := List.mem_takeWhile_imp h
      simp only [isIndent, Bool.or_eq_true, beq_iff_eq] at hindent
      rcases hindent with h | h
      all_goals
        rw [h]
        rfl

theorem place_cons {open_ out : List (UInt8 × Nat)} {before : UInt8} {part : CellPart}
    {rest : List CellPart}
    (h : place open_ before (part :: rest) = some out) :
    ∃ next, part.place open_ before (edgeOf rest) = some next ∧
      place next part.edge rest = some out :=
  Option.bind_eq_some_iff.1 h

/-- A run is bounded by other characters. -/
theorem place_mark {open_ out : List (UInt8 × Nat)} {before after c : UInt8} {role : MarkRole}
    {run : Nat}
    (h : (CellPart.mark role c run).place open_ before after = some out) :
    before ≠ c ∧ after ≠ c := by
  simp only [CellPart.place] at h
  split at h
  · cases h
  · rename_i hne
    simpa [not_or] using hne

/-- The run at a position, and what is behind it. -/
theorem takeWhile_run {c : UInt8} (run : Nat) {rest : Bytes} (h : rest.head? ≠ some c) :
    (List.replicate run c ++ rest).takeWhile (· == c) = List.replicate run c := by
  rw [List.takeWhile_append_of_pos fun b hb => by simp [(List.mem_replicate.1 hb).2]]
  cases rest with
  | nil => simp
  | cons b rest =>
    have hb : (b == c) = false := by
      rw [beq_eq_false_iff_ne]
      rintro rfl
      exact h rfl
    rw [List.takeWhile_cons, hb]
    simp

/-- **The pieces of a paragraph** are its stretches. -/
theorem piecesFrom_stretches :
    ∀ {parts : List CellPart} {n : Nat} {prev : Option UInt8} {buffer : List Chunk}
    {skip : Bool} {before : UInt8} {open_ out : List (UInt8 × Nat)},
    (∀ part ∈ parts, part.proper = true) → place open_ before parts = some out →
    Alike (prev.getD 0x20) before → (skip = true → isSpace before = true) →
    (behindIndent skip (parts.flatMap CellPart.escaped)).length ≤ n →
    piecesFrom n prev (buffer.flatMap Chunk.html)
      (behindIndent skip (parts.flatMap CellPart.escaped)) =
      (stretches buffer skip before parts).map fun s => s.span.piece := by
  intro parts
  induction parts with
  | nil =>
    intro n prev buffer skip before open_ out _ _ _ _ _
    have hnil : behindIndent skip (([] : List CellPart).flatMap CellPart.escaped) = [] := by
      cases skip <;> rfl
    rw [hnil, stretches, ← flush_chunks]
    cases n <;> rfl
  | cons part rest ih =>
    intro n prev buffer skip before open_ out hproper hplace halike hskip hn
    have hpart := hproper part List.mem_cons_self
    have hrest := fun p hp => hproper p (List.mem_cons_of_mem part hp)
    obtain ⟨next, hfirst, hplace⟩ := place_cons hplace
    rw [List.flatMap_cons] at hn ⊢
    cases part with
    | plain c =>
      rw [escaped_plain hpart, List.singleton_append] at hn ⊢
      by_cases hindent : skip = true ∧ isIndent c = true
      · -- the indentation of a line
        obtain ⟨rfl, hc⟩ := hindent
        have hdrop : behindIndent true (c :: rest.flatMap CellPart.escaped) =
            behindIndent true (rest.flatMap CellPart.escaped) := List.dropWhile_cons_of_pos hc
        have hspace : isSpace c = true := by
          simp only [isIndent, Bool.or_eq_true, beq_iff_eq] at hc
          rcases hc with rfl | rfl <;> rfl
        rw [hdrop] at hn ⊢
        rw [stretches, if_pos (by simp [hc])]
        exact ih hrest hplace (halike.trans (alike_spaces (hskip rfl) hspace)) (fun _ => hspace) hn
      · have hkeep : behindIndent skip (c :: rest.flatMap CellPart.escaped) =
            c :: rest.flatMap CellPart.escaped := by
          cases skip with
          | false => rfl
          | true => exact behindIndent_eq (by simpa using hindent)
        rw [hkeep] at hn ⊢
        rw [List.length_cons] at hn
        rw [stretches, if_neg (by simpa using hindent)]
        by_cases hc : c = 0x0A
        · subst hc
          obtain ⟨m, rfl⟩ : ∃ m, n = m + 1 := ⟨n - 1, by omega⟩
          obtain ⟨b, hlast, hb⟩ := lastPassed_indent (rest.flatMap CellPart.escaped)
          have hlen :=
            (List.dropWhile_suffix (l := rest.flatMap CellPart.escaped) isIndent).length_le
          rw [if_pos (by decide), piecesFrom, token_tame rfl]
          simp only [show isMark 0x0A = false from rfl, Bool.false_eq_true, if_false,
            beq_self_eq_true, if_true, hlast, breakLine_chunks]
          exact @ih _ _ _ true _ _ _ hrest hplace (alike_spaces hb rfl) (fun _ => rfl)
            (show ((rest.flatMap CellPart.escaped).dropWhile isIndent).length ≤ m by omega)
        · rw [if_neg (by simpa using hc)]
          have hword := @piecesFrom_words [c] n prev (buffer.flatMap Chunk.html)
            (rest.flatMap CellPart.escaped) (by simpa using isWord_plain hpart hc)
            (by simpa using hn)
          rw [List.singleton_append] at hword
          rw [hword]
          have hbuffer : buffer.flatMap Chunk.html ++ [c].flatMap escapeByte =
              (buffer ++ [Chunk.byte c]).flatMap Chunk.html := by
            simp [Chunk.html]
          rw [hbuffer]
          exact @ih _ _ _ false _ _ _ hrest hplace (Alike.refl c) (by simp)
            (show (rest.flatMap CellPart.escaped).length ≤ n - 1 by omega)
    | sign s =>
      have hescaped : (CellPart.sign s).escaped = escapeHtmlByte s.char :=
        List.flatMap_singleton _ _
      obtain ⟨hwords, hstart, hend⟩ := isWord_sign s
      have hne : escapeHtmlByte s.char ≠ [] := by
        intro hnil
        rw [hnil] at hend
        cases hend
      rw [hescaped, behindIndent_append hne hstart] at hn ⊢
      rw [piecesFrom_words _ hwords hn, hend, stretches]
      have hbuffer : buffer.flatMap Chunk.html ++ (escapeHtmlByte s.char).flatMap escapeByte =
          (buffer ++ (escapeHtmlByte s.char).map Chunk.byte).flatMap Chunk.html := by
        rw [List.flatMap_append, List.flatMap_map]
        rfl
      rw [hbuffer]
      exact @ih _ _ _ false _ _ _ hrest hplace (alike_sign s).2.symm (by simp)
        (show (rest.flatMap CellPart.escaped).length ≤ _ by rw [List.length_append] at hn; omega)
    | mark role c run =>
      have hmark := hpart
      simp only [CellPart.proper, Bool.and_eq_true, bne_iff_ne] at hmark
      obtain ⟨k, rfl⟩ : ∃ k, run = k + 1 := ⟨run - 1, by omega⟩
      have hindent : isIndent c = false := by rcases isMark_eq hmark.1 with rfl | rfl <;> rfl
      have htame : isTame c = true := by rcases isMark_eq hmark.1 with rfl | rfl <;> rfl
      have hbehind := alike_head hrest
      have hafter : (rest.flatMap CellPart.escaped).head? ≠ some c := by
        intro hhead
        rw [hhead] at hbehind
        have hsame := hbehind.mark c hmark.1
        have hne := (place_mark hfirst).2
        simp [hne] at hsame
      have hkeep : behindIndent skip
        ((CellPart.mark role c (k + 1)).escaped ++ rest.flatMap CellPart.escaped) =
          c :: (List.replicate k c ++ rest.flatMap CellPart.escaped) := by
        rw [escaped_mark hmark.1, List.replicate_succ, List.cons_append]
        exact behindIndent_eq hindent
      rw [hkeep] at hn ⊢
      rw [List.length_cons, List.length_append] at hn
      obtain ⟨m, rfl⟩ : ∃ m, n = m + 1 := ⟨n - 1, by omega⟩
      have hrun : ((c :: (List.replicate k c ++ rest.flatMap CellPart.escaped)).takeWhile
        (· == c)).length = k + 1 := by
        have h := takeWhile_run (k + 1) hafter
        rw [List.replicate_succ, List.cons_append] at h
        rw [h]
        simp
      have hdrop : (c :: (List.replicate k c ++ rest.flatMap CellPart.escaped)).drop (k + 1) =
          rest.flatMap CellPart.escaped := by
        rw [List.drop_succ_cons]
        exact List.drop_left' (by simp)
      have hlast : lastPassed (c :: (List.replicate k c ++ rest.flatMap CellPart.escaped))
          (rest.flatMap CellPart.escaped) = some c := by
        have h := lastPassed_append (List.replicate (k + 1) c) (rest.flatMap CellPart.escaped)
        rw [List.replicate_succ, List.cons_append] at h
        rw [h, ← List.replicate_succ]
        simp [List.getLast?_replicate]
      rw [piecesFrom, token_tame htame]
      simp only [hmark.1, if_true, hrun, hdrop, hlast]
      rw [stretches, List.map_append, List.map_cons, flush_chunks,
        delimiter_alike halike hbehind]
      refine congrArg _ (congrArg _ ?_)
      exact @ih _ _ [] false _ _ _ hrest hplace (Alike.refl c) (by simp)
        (show (rest.flatMap CellPart.escaped).length ≤ m by omega)

/-! ## Their emphasis -/

theorem place_mark_cases {open_ out : List (UInt8 × Nat)} {before after c : UInt8} {role : MarkRole}
    {run : Nat}
    (h : (CellPart.mark role c run).place open_ before after = some out) :
    (role = .loose ∧ (delimiter c run before after).canOpen = false ∧
      (delimiter c run before after).canClose = false ∧ out = open_) ∨
    (role = .opens ∧ (delimiter c run before after).canOpen = true ∧
      ((delimiter c run before after).canClose = true → open_ = []) ∧ out = (c, run) :: open_) ∨
    (role = .closes ∧ (delimiter c run before after).canClose = true ∧
      open_ = (c, run) :: out) := by
  simp only [CellPart.place] at h
  split at h
  · cases h
  split at h
  · split at h
    · rename_i hloose
      simp only [Bool.and_eq_true, Bool.not_eq_true'] at hloose
      exact Or.inl ⟨rfl, hloose.1, hloose.2, (Option.some.inj h).symm⟩
    · cases h
  · split at h
    · rename_i hopens
      simp only [Bool.and_eq_true, Bool.or_eq_true, Bool.not_eq_true', List.isEmpty_iff] at hopens
      refine Or.inr (Or.inl ⟨rfl, hopens.1, fun hclose => ?_, (Option.some.inj h).symm⟩)
      rcases hopens.2 with hno | hnil
      · rw [hclose] at hno
        cases hno
      · exact hnil
    · cases h
  · cases h
  · split at h
    · rename_i hcloses
      simp only [Bool.and_eq_true, beq_iff_eq] at hcloses
      exact Or.inr (Or.inr ⟨rfl, hcloses.1, by rw [hcloses.2, Option.some.inj h]⟩)
    · cases h

theorem isRun_delimiter {c before after : UInt8} {run : Nat} (h : run ≠ 0) :
    (delimiter c run before after).IsRun := ⟨rfl, rfl, h, rfl, rfl⟩

theorem spanned_flush {open_ : List Piece} (buffer : List Chunk) {spans : List Span}
    (h : Spanned open_ spans) :
    Spanned open_ ((flushChunks buffer).map Stretch.span ++ spans) := by
  unfold flushChunks
  split
  · exact h
  · exact h

/-- The spans of a paragraph are closed by runs like their openers. -/
theorem spanned_stretches :
    ∀ {parts : List CellPart} {buffer : List Chunk} {skip : Bool} {before : UInt8}
    {open_ : List Piece}, (∀ part ∈ parts, part.proper = true) →
    place (open_.map fun p => (p.ch, p.count)) before parts = some [] →
    Spanned open_ ((stretches buffer skip before parts).map Stretch.span) := by
  intro parts
  induction parts with
  | nil =>
    intro buffer skip before open_ _ hplace
    have hnil : open_ = [] := List.map_eq_nil_iff.1 (Option.some.inj hplace)
    rw [stretches, hnil]
    have hflush := @spanned_flush [] buffer [] rfl
    rwa [List.append_nil] at hflush
  | cons part rest ih =>
    intro buffer skip before open_ hproper hplace
    have hpart := hproper part List.mem_cons_self
    have hrest := fun p hp => hproper p (List.mem_cons_of_mem part hp)
    obtain ⟨next, hfirst, hnext⟩ := place_cons hplace
    cases part with
    | plain c =>
      cases hfirst
      rw [stretches]
      split
      · exact ih hrest hnext
      split
      · exact ih hrest hnext
      · exact ih hrest hnext
    | sign s =>
      cases hfirst
      exact ih hrest hnext
    | mark role c run =>
      simp only [CellPart.proper, Bool.and_eq_true, bne_iff_ne] at hpart
      have hrun := @isRun_delimiter c before (edgeOf rest) _ hpart.2
      rw [stretches, List.map_append, List.map_cons]
      apply spanned_flush
      rcases place_mark_cases hfirst with
        ⟨rfl, hopen, hclose, rfl⟩ | ⟨rfl, hopen, hclose, rfl⟩ | ⟨rfl, hclose, hopen⟩
      · exact ⟨hrun, hopen, hclose, ih hrest hnext⟩
      · refine ⟨hrun, hopen, fun h => List.map_eq_nil_iff.1 (hclose h), ?_⟩
        exact @ih _ _ _ (delimiter c run before (edgeOf rest) :: open_) hrest hnext
      · cases open_ with
        | nil => cases hopen
        | cons o open_ =>
          rw [List.map_cons, List.cons.injEq, Prod.mk.injEq] at hopen
          refine ⟨hrun, hclose, hopen.1.1.symm, hopen.1.2.symm, ih hrest ?_⟩
          rw [hopen.2]
          exact hnext

theorem html_openChunks (n : Nat) : (openChunks n).flatMap Chunk.html = openRun n := by
  induction n using Nat.strong_induction_on with
  | _ n ih =>
    match n, ih with
    | 0, _ => rfl
    | 1, _ => rfl
    | n + 2, ih =>
      rw [openChunks, List.flatMap_append, ih n (by omega), openRun]
      rfl

theorem html_closeChunks (n : Nat) : (closeChunks n).flatMap Chunk.html = closeRun n := by
  induction n using Nat.strong_induction_on with
  | _ n ih =>
    match n, ih with
    | 0, _ => rfl
    | 1, _ => rfl
    | n + 2, ih =>
      rw [closeChunks, List.flatMap_cons, ih n (by omega), closeRun]
      rfl

/-- What a stretch is rendered as once its spans are closed. -/
theorem render_stretch {role : MarkRole} {c before after : UInt8} {run : Nat}
    (hc : isMark c = true) :
    (Stretch.mark role (delimiter c run before after)).span.settled.render =
      (Stretch.mark role (delimiter c run before after)).chunks.flatMap Chunk.html := by
  have hbyte : Chunk.html (.byte c) = [c] := by rcases isMark_eq hc with rfl | rfl <;> rfl
  cases role with
  | loose =>
    show [] ++ List.replicate run c ++ [] = (List.replicate run (Chunk.byte c)).flatMap Chunk.html
    simp [List.flatMap_replicate, hbyte]
  | opens =>
    show [] ++ [] ++ openRun run = (openChunks run).flatMap Chunk.html
    rw [html_openChunks]
    rfl
  | closes =>
    show closeRun run ++ [] ++ [] = (closeChunks run).flatMap Chunk.html
    rw [html_closeChunks, List.append_nil, List.append_nil]

theorem mem_stretches {s : Stretch} : ∀ {parts : List CellPart} {buffer : List Chunk} {skip : Bool}
    {before : UInt8}, (∀ part ∈ parts, part.proper = true) →
      s ∈ stretches buffer skip before parts →
    (∃ chunks, s = .text chunks) ∨
      ∃ role c run b a, s = .mark role (delimiter c run b a) ∧ isMark c = true := by
  have hflush : ∀ {buffer : List Chunk}, s ∈ flushChunks buffer → ∃ chunks, s = .text chunks := by
    intro buffer h
    unfold flushChunks at h
    split at h
    · cases h
    · exact ⟨buffer, List.mem_singleton.1 h⟩
  intro parts
  induction parts with
  | nil => intro buffer skip before _ h; exact Or.inl (hflush h)
  | cons part rest ih =>
    intro buffer skip before hproper h
    have hrest := fun p hp => hproper p (List.mem_cons_of_mem part hp)
    cases part with
    | plain c =>
      rw [stretches] at h
      split at h
      · exact ih hrest h
      split at h
      · exact ih hrest h
      · exact ih hrest h
    | sign s => exact ih hrest h
    | mark role c run =>
      have hpart := hproper _ List.mem_cons_self
      simp only [CellPart.proper, Bool.and_eq_true] at hpart
      rw [stretches] at h
      rcases List.mem_append.1 h with h | h
      · exact Or.inl (hflush h)
      · rcases List.mem_cons.1 h with rfl | h
        · exact Or.inr ⟨role, c, run, _, _, rfl, hpart.1⟩
        · exact ih hrest h

/-- The chunks of a paragraph. -/
def paragraphChunks (parts : List CellPart) : List Chunk :=
  (stretches [] false 0x20 parts).flatMap Stretch.chunks

/-- **A paragraph is rendered as its stretches.** -/
theorem renderParagraph_parts {parts : List CellPart} (hproper : ∀ part ∈ parts, part.proper = true)
    (hplace : place [] 0x20 parts = some []) :
    renderParagraph (parts.flatMap CellPart.escaped) =
      (paragraphChunks parts).flatMap Chunk.html := by
  have hpieces : pieces (parts.flatMap CellPart.escaped) =
      ((stretches [] false 0x20 parts).map Stretch.span).map Span.piece := by
    rw [List.map_map]
    exact @piecesFrom_stretches _ _ none [] false _ _ _ hproper hplace (Alike.refl _) (by simp)
      (Nat.le_refl _)
  have hspanned := @spanned_stretches _ [] false _ [] hproper hplace
  rw [renderParagraph, hpieces, processEmphasis_spans hspanned, List.flatMap_map, List.flatMap_map,
    paragraphChunks, List.flatMap_assoc]
  refine List.flatMap_congr fun s hs => ?_
  rcases mem_stretches hproper hs with ⟨chunks, rfl⟩ | ⟨role, c, run, b, a, rfl, hc⟩
  · rfl
  · exact render_stretch hc

/-! ## What a paragraph shows -/

/-- A part without emphasis markers, still escaped. -/
def CellPart.kept (part : CellPart) : Bytes := part.meaning.flatMap escapeHtmlByte

theorem chunks_flush (buffer : List Chunk) :
    (flushChunks buffer).flatMap Stretch.chunks = buffer := by
  unfold flushChunks
  split
  · rename_i h
    rw [List.isEmpty_iff.1 h]
    rfl
  · simp [Stretch.chunks]

theorem openChunks_facts (n : Nat) : (openChunks n).flatMap Chunk.shown = [] ∧
    (∀ chunk ∈ openChunks n, chunk.proper = true) ∧
      (n ≠ 0 → (openChunks n).any Chunk.isOpenTag = true) := by
  induction n using Nat.strong_induction_on with
  | _ n ih =>
    match n, ih with
    | 0, _ => exact ⟨rfl, nofun, fun h => absurd rfl h⟩
    | 1, _ => exact ⟨rfl, by simp [openChunks, Chunk.proper], fun _ => rfl⟩
    | n + 2, ih =>
      obtain ⟨hshown, hproper, -⟩ := ih n (by omega)
      refine ⟨?_, ?_, fun _ => ?_⟩
      · rw [openChunks, List.flatMap_append, hshown]
        rfl
      · intro chunk hchunk
        rcases List.mem_append.1 hchunk with h | h
        · exact hproper chunk h
        · rw [List.mem_singleton.1 h]
          rfl
      · simp [openChunks, Chunk.isOpenTag]

theorem closeChunks_facts (n : Nat) : (closeChunks n).flatMap Chunk.shown = [] ∧
    (∀ chunk ∈ closeChunks n, chunk.proper = true) ∧
      (closeChunks n).any Chunk.isOpenTag = false := by
  induction n using Nat.strong_induction_on with
  | _ n ih =>
    match n, ih with
    | 0, _ => exact ⟨rfl, nofun, rfl⟩
    | 1, _ => exact ⟨rfl, by simp [closeChunks, Chunk.proper], rfl⟩
    | n + 2, ih =>
      obtain ⟨hshown, hproper, hopen⟩ := ih n (by omega)
      refine ⟨?_, ?_, ?_⟩
      · rw [closeChunks, List.flatMap_cons, hshown]
        rfl
      · intro chunk hchunk
        rcases List.mem_cons.1 hchunk with rfl | h
        · rfl
        · exact hproper chunk h
      · rw [closeChunks, List.any_cons, hopen]
        rfl

/-- The chunks of a run: what they show, and whether they open emphasis. -/
theorem mark_facts {role : MarkRole} {c before after : UInt8} {run : Nat}
    (h : (CellPart.mark role c run).proper = true) :
    (Stretch.mark role (delimiter c run before after)).chunks.flatMap Chunk.shown =
      (CellPart.mark role c run).kept ∧
      (∀ chunk ∈ (Stretch.mark role (delimiter c run before after)).chunks, chunk.proper = true) ∧
      (Stretch.mark role (delimiter c run before after)).chunks.any Chunk.isOpenTag =
        (CellPart.mark role c run).isOpener := by
  simp only [CellPart.proper, Bool.and_eq_true, bne_iff_ne] at h
  cases role with
  | loose =>
    refine ⟨?_, ?_, ?_⟩
    · have hkept := escaped_mark h.1 .loose run
      show (List.replicate run (Chunk.byte c)).flatMap Chunk.shown =
        (CellPart.mark .loose c run).escaped
      rw [hkept]
      simp [List.flatMap_replicate, Chunk.shown]
    · intro chunk hchunk
      rw [(List.mem_replicate.1 hchunk).2]
      show (c != 0x0A) = true
      rcases isMark_eq h.1 with rfl | rfl <;> rfl
    · rw [List.any_eq_false.2]
      · rfl
      · intro chunk hchunk
        rw [(List.mem_replicate.1 hchunk).2]
        exact Bool.false_ne_true
  | opens =>
    obtain ⟨hshown, hproper, hopen⟩ := openChunks_facts run
    exact ⟨hshown, hproper, hopen h.2⟩
  | closes => exact closeChunks_facts run

theorem breakChunks_facts (buffer : List Chunk) :
    SameWords ((breakChunks buffer).flatMap Chunk.shown) (buffer.flatMap Chunk.shown ++ [0x0A]) ∧
      ((∀ chunk ∈ buffer, chunk.proper = true) →
        ∀ chunk ∈ breakChunks buffer, chunk.proper = true) ∧
      (breakChunks buffer).any Chunk.isOpenTag = buffer.any Chunk.isOpenTag := by
  obtain ⟨tail, hsplit, htail⟩ := rdropWhile_split buffer (· == .byte 0x20)
  have hblank : tail = List.replicate tail.length (.byte 0x20) :=
    List.eq_replicate_of_mem fun chunk hchunk => beq_iff_eq.1 (htail chunk hchunk)
  refine ⟨?_, ?_, ?_⟩
  · have hshown : tail.flatMap Chunk.shown = List.replicate tail.length 0x20 := by
      conv_lhs => rw [hblank]
      simp [List.flatMap_replicate, Chunk.shown]
    conv in buffer.flatMap Chunk.shown => rw [hsplit]
    rw [breakChunks, List.flatMap_append, List.flatMap_append, List.append_assoc, hshown]
    refine SameWords.rfl.append (sameWords_spaces (List.cons_ne_nil _ _) (by simp) ?_ ?_)
    · intro c hc
      rw [List.mem_singleton.1 hc]
      rfl
    · intro c hc
      rcases List.mem_append.1 hc with hc | hc
      · rw [(List.mem_replicate.1 hc).2]
        rfl
      · rw [List.mem_singleton.1 hc]
        rfl
  · intro hproper chunk hchunk
    rcases List.mem_append.1 hchunk with h | h
    · exact hproper chunk ((List.rdropWhile_prefix _ _).subset h)
    · rw [List.mem_singleton.1 h]
      rfl
  · have hnone : tail.any Chunk.isOpenTag = false := by
      rw [hblank, List.any_eq_false]
      intro chunk hchunk
      rw [(List.mem_replicate.1 hchunk).2]
      exact Bool.false_ne_true
    conv_rhs => rw [hsplit]
    rw [breakChunks, List.any_append, List.any_append, hnone]
    rfl

/-- What the stretches show has the words of the text. -/
theorem sameWords_stretches :
    ∀ {parts : List CellPart} {buffer : List Chunk} {skip : Bool} {before : UInt8},
    (∀ part ∈ parts, part.proper = true) →
    (skip = true → ∃ init hard, buffer = init ++ [.lineBreak hard]) →
    SameWords (((stretches buffer skip before parts).flatMap Stretch.chunks).flatMap Chunk.shown)
      (buffer.flatMap Chunk.shown ++ parts.flatMap CellPart.kept) := by
  intro parts
  induction parts with
  | nil =>
    intro buffer skip before _ _
    rw [stretches, chunks_flush, List.flatMap_nil, List.append_nil]
    exact SameWords.rfl
  | cons part rest ih =>
    intro buffer skip before hproper hskip
    have hpart := hproper part List.mem_cons_self
    have hrest := fun p hp => hproper p (List.mem_cons_of_mem part hp)
    rw [List.flatMap_cons, ← List.append_assoc]
    cases part with
    | plain c =>
      have hkept : (CellPart.plain c).kept = [c] := escaped_plain hpart
      rw [hkept, stretches]
      split
      · rename_i hindent
        simp only [Bool.and_eq_true] at hindent
        obtain ⟨init, hard, hbuffer⟩ := hskip hindent.1
        refine (ih hrest fun _ => ⟨init, hard, hbuffer⟩).trans (SameWords.append ?_ SameWords.rfl)
        -- the line break is there already
        rw [hbuffer, List.flatMap_append, List.append_assoc]
        refine SameWords.rfl.append
          (sameWords_spaces (List.cons_ne_nil _ _) (by simp [Chunk.shown]) ?_ ?_)
        · simp [Chunk.shown, isSpace]
        · have hc : isSpace c = true := by
            have hc := hindent.2
            simp only [isIndent, Bool.or_eq_true, beq_iff_eq] at hc
            rcases hc with rfl | rfl <;> rfl
          intro b hb
          rcases List.mem_append.1 hb with hb | hb
          · rw [List.mem_singleton.1 hb]
            rfl
          · rw [List.mem_singleton.1 hb]
            exact hc
      split
      · rename_i hc
        rw [beq_iff_eq.1 hc]
        obtain ⟨hbreak, -, -⟩ := breakChunks_facts buffer
        refine (ih hrest fun _ => ⟨_, _, rfl⟩).trans (hbreak.append SameWords.rfl)
      · have hbyte := @ih (buffer ++ [.byte c]) false c hrest (by simp)
        simpa [Chunk.shown] using hbyte
    | sign s =>
      have hkept : (CellPart.sign s).kept = escapeHtmlByte s.char := List.flatMap_singleton _ _
      have hbytes := @ih (buffer ++ (escapeHtmlByte s.char).map .byte) false s.char hrest (by simp)
      have hshown : ((escapeHtmlByte s.char).map Chunk.byte).flatMap Chunk.shown =
        escapeHtmlByte s.char := by
        rw [List.flatMap_map]
        exact List.flatMap_singleton' _
      rw [List.flatMap_append, hshown] at hbytes
      rw [hkept, stretches]
      exact hbytes
    | mark role c run =>
      obtain ⟨hshown, -, -⟩ := @mark_facts _ _ before (edgeOf rest) _ hpart
      have htail := @ih [] false c hrest (by simp)
      rw [stretches, List.flatMap_append, List.flatMap_cons, chunks_flush, List.flatMap_append,
        List.flatMap_append, hshown, List.append_assoc]
      exact SameWords.rfl.append (SameWords.rfl.append htail)

theorem proper_stretches :
    ∀ {parts : List CellPart} {buffer : List Chunk} {skip : Bool} {before : UInt8},
    (∀ part ∈ parts, part.proper = true) → (∀ chunk ∈ buffer, chunk.proper = true) →
    (∀ chunk ∈ (stretches buffer skip before parts).flatMap Stretch.chunks, chunk.proper = true) ∧
      ((stretches buffer skip before parts).flatMap Stretch.chunks).any Chunk.isOpenTag =
        (buffer.any Chunk.isOpenTag || parts.any CellPart.isOpener) := by
  intro parts
  induction parts with
  | nil =>
    intro buffer skip before _ hbuffer
    rw [stretches, chunks_flush]
    exact ⟨hbuffer, (Bool.or_false _).symm⟩
  | cons part rest ih =>
    intro buffer skip before hproper hbuffer
    have hpart := hproper part List.mem_cons_self
    have hrest := fun p hp => hproper p (List.mem_cons_of_mem part hp)
    cases part with
    | plain c =>
      rw [stretches, List.any_cons]
      split
      · exact ih hrest hbuffer
      split
      · obtain ⟨-, hbreak, hopen⟩ := breakChunks_facts buffer
        rw [← hopen]
        exact ih hrest (hbreak hbuffer)
      · rename_i hc
        have hbyte : ∀ chunk ∈ buffer ++ [.byte c], chunk.proper = true := by
          intro chunk hchunk
          rcases List.mem_append.1 hchunk with h | h
          · exact hbuffer chunk h
          · rw [List.mem_singleton.1 h]
            simpa [Chunk.proper] using hc
        obtain ⟨hall, hopen⟩ := @ih _ false c hrest hbyte
        refine ⟨hall, ?_⟩
        rw [hopen, List.any_append]
        simp [Chunk.isOpenTag, CellPart.isOpener]
    | sign s =>
      have hbytes : ∀ chunk ∈ buffer ++ (escapeHtmlByte s.char).map .byte, chunk.proper = true := by
        intro chunk hchunk
        rcases List.mem_append.1 hchunk with h | h
        · exact hbuffer chunk h
        · obtain ⟨c, hc, rfl⟩ := List.mem_map.1 h
          have hword := (isWord_sign s).1 c hc
          simp only [isWord, Bool.and_eq_true] at hword
          exact hword.2
      obtain ⟨hall, hopen⟩ := @ih _ false s.char hrest hbytes
      have hnone : ((escapeHtmlByte s.char).map Chunk.byte).any Chunk.isOpenTag = false := by
        rw [List.any_eq_false]
        intro chunk hchunk
        obtain ⟨c, -, rfl⟩ := List.mem_map.1 hchunk
        exact Bool.false_ne_true
      refine ⟨hall, ?_⟩
      rw [stretches, hopen, List.any_append, hnone, Bool.or_false]
      rfl
    | mark role c run =>
      obtain ⟨-, hmark, hopens⟩ := @mark_facts _ _ before (edgeOf rest) _ hpart
      obtain ⟨hall, hopen⟩ := @ih [] false c hrest (by simp)
      rw [stretches, List.flatMap_append, List.flatMap_cons, chunks_flush]
      refine ⟨?_, ?_⟩
      · intro chunk hchunk
        rcases List.mem_append.1 hchunk with h | h
        · exact hbuffer chunk h
        · rcases List.mem_append.1 h with h | h
          · exact hmark chunk h
          · exact hall chunk h
      · rw [List.any_append, List.any_append, hopens, hopen, List.any_cons]
        rfl

end VlmConvert.L2.Latex

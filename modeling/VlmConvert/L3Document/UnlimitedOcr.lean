import VlmConvert.L3Document.DeepseekEmit

/-!
# Unlimited-OCR annotations

`normalize_unlimited_ocr` (`src/mapping/deepseek.cpp:311-383`) rewrites the
inline annotations of Unlimited-OCR, `<|det|>label [a,b,c,d]<|/det|>`, to
DeepSeek-OCR annotation lines, and `map_unlimited_ocr` hands the result to
`map_deepseek_ocr`. The rewriter takes any whitespace around the commas and
copies it; the matcher behind it takes blanks only, on one line.

The content comes apart into pieces, the rewritten annotations and the text
between them (`pieces_raw`). `std::from_chars` is a parameter, of which the
results ask that it reads integers below `2^53` as they are.

Results:

* `match_rewritten_iff`: the line of a rewritten annotation is recognised
  exactly when the whitespace between its coordinates is blanks.
* `opened_iff`: an annotation line opens a block exactly when no table of an
  earlier block covers it.
* `rewritten_opens_iff`: both, for every content and every annotation in it.
-/
namespace VlmConvert.L3.Deepseek

open Bytes L2

/-! ## The rewriter -/

def kOpen : Bytes := ascii "<|det|>"

def kClose : Bytes := ascii "<|/det|>"

def isLabelChar (c : UInt8) : Bool := (0x61 ≤ c && c ≤ 0x7A) || c == 0x5F

/-- A number behind the first one: the comma, the whitespace around it, and
the digits. -/
structure Coord where
  before : Bytes
  after : Bytes
  digits : Bytes
  deriving DecidableEq

def Coord.text (c : Coord) : Bytes := c.before ++ 0x2C :: (c.after ++ c.digits)

/-- An inline annotation: its label, its first number and the others. -/
structure Note where
  label : Bytes
  first : Bytes
  more : List Coord
  deriving DecidableEq

/-- What stands between the brackets. -/
def Note.box (note : Note) : Bytes := note.first ++ note.more.flatMap Coord.text

/-- `digits()`: one digit at least.
mirrors src/mapping/deepseek.cpp:333-339 -/
def readDigits (l : Bytes) : Option (Bytes × Bytes) :=
  if (l.takeWhile isDigit).isEmpty then none else some (l.takeWhile isDigit, l.dropWhile isDigit)

/-- mirrors src/mapping/deepseek.cpp:357-364 -/
def readCoord (l : Bytes) : Option (Coord × Bytes) :=
  match l.dropWhile isSpace with
  | 0x2C :: rest =>
    (readDigits (rest.dropWhile isSpace)).map fun r =>
      (⟨l.takeWhile isSpace, rest.takeWhile isSpace, r.1⟩, r.2)
  | _ => none

/-- mirrors src/mapping/deepseek.cpp:357-365 -/
def readCoords : Nat → Bytes → Option (List Coord × Bytes)
  | 0, l => some ([], l)
  | n + 1, l => do
    let (c, l) ← readCoord l
    let (cs, l) ← readCoords n l
    return (c :: cs, l)

/-- What stands behind `<|det|>`, if it is an annotation, and the rest of the
text.
mirrors src/mapping/deepseek.cpp:340-369 -/
def readNote (l : Bytes) : Option (Note × Bytes) :=
  let l := l.dropWhile isSpace
  let label := l.takeWhile isLabelChar
  if label.isEmpty then none
  else
    match (l.dropWhile isLabelChar).dropWhile isSpace with
    | 0x5B :: l => do
      let (first, l) ← readDigits l
      let (more, l) ← readCoords 3 l
      if (0x5D :: kClose).isPrefixOf l then some (⟨label, first, more⟩, l.drop (kClose.length + 1))
      else none
    | _ => none

/-- A piece of the content: text, or an annotation with the text it had. -/
inductive Piece
  | text (bytes : Bytes)
  | note (raw : Bytes) (written : Note)
  deriving DecidableEq

def Piece.raw : Piece → Bytes
  | .text bytes => bytes
  | .note raw _ => raw

/-- The annotation line of an annotation.
mirrors src/mapping/deepseek.cpp:375-379 -/
def Note.line (note : Note) : Bytes :=
  ascii "<|ref|>" ++ note.label ++ ascii "<|/ref|><|det|>[[" ++ note.box ++ ascii "]]<|/det|>"

def Piece.out : Piece → Bytes
  | .text bytes => bytes
  | .note _ written => written.line ++ [0x0A]

/-- mirrors src/mapping/deepseek.cpp:319-381 -/
def pieces : Nat → Bytes → List Piece
  | 0, _ => []
  | n + 1, content =>
    match findSub kOpen content with
    | none => [.text content]
    | some (before, rest) =>
      let behind := rest.drop kOpen.length
      match readNote behind with
      | none => .text before :: .text kOpen :: pieces n behind
      | some (note, rest') =>
        .text before :: .note (rest.take (rest.length - rest'.length)) note :: pieces n rest'

/-- mirrors src/mapping/deepseek.cpp:314-383 -/
def normalizeUnlimitedOcr (content : Bytes) : Bytes :=
  (pieces (content.length + 1) content).flatMap Piece.out

/-- mirrors src/mapping/deepseek.cpp:512-515 -/
def mapUnlimitedOcr (page : PageContext) (raster : PageRaster) (byteSizeLong : TableCell → Nat)
    (fromChars : Bytes → Option (Float × Bytes)) (text : Bytes)
    (warnings : Option (List PageWarning)) :
    Except Bytes (Document × Option (List PageWarning)) :=
  mapDeepseekOcr page raster byteSizeLong fromChars (normalizeUnlimitedOcr text) warnings

/-! ## What the rewriter reads -/

/-- The parts of an annotation are what the rewriter looks for. -/
structure Note.Proper (note : Note) : Prop where
  label_ne : note.label ≠ []
  label_chars : ∀ b ∈ note.label, isLabelChar b = true
  first_ne : note.first ≠ []
  first_digits : ∀ b ∈ note.first, isDigit b = true
  three : note.more.length = 3
  spaces : ∀ c ∈ note.more, ∀ b ∈ c.before ++ c.after, isSpace b = true
  digits_ne : ∀ c ∈ note.more, c.digits ≠ []
  digits : ∀ c ∈ note.more, ∀ b ∈ c.digits, isDigit b = true

section Reading

theorem readDigits_eq {l digits rest : Bytes} (h : readDigits l = some (digits, rest)) :
    l = digits ++ rest ∧ digits ≠ [] ∧ ∀ b ∈ digits, isDigit b = true := by
  unfold readDigits at h
  split at h
  · cases h
  · rename_i hne
    cases h
    exact ⟨List.takeWhile_append_dropWhile.symm, by simpa using hne,
      fun b hb => List.mem_takeWhile_imp hb⟩

theorem readCoord_eq {l rest : Bytes} {c : Coord} (h : readCoord l = some (c, rest)) :
    l = c.text ++ rest ∧ (∀ b ∈ c.before ++ c.after, isSpace b = true) ∧ c.digits ≠ [] ∧
      ∀ b ∈ c.digits, isDigit b = true := by
  unfold readCoord at h
  split at h
  · rename_i behind hbehind
    obtain ⟨⟨digits, rest'⟩, hdigits, he⟩ := Option.map_eq_some_iff.1 h
    cases he
    obtain ⟨heq, hne, hall⟩ := readDigits_eq hdigits
    refine ⟨?_, ?_, hne, hall⟩
    · have hl : l = l.takeWhile isSpace ++ 0x2C :: behind := by
        rw [← hbehind, List.takeWhile_append_dropWhile]
      have hb : behind = behind.takeWhile isSpace ++ (digits ++ rest') := by
        rw [← heq, List.takeWhile_append_dropWhile]
      conv_lhs => rw [hl, hb]
      simp [Coord.text]
    · intro b hb
      rcases List.mem_append.1 hb with hb | hb
      · exact List.mem_takeWhile_imp hb
      · exact List.mem_takeWhile_imp hb
  · cases h

theorem readCoords_eq : ∀ {n : Nat} {l rest : Bytes} {cs : List Coord},
    readCoords n l = some (cs, rest) → l = cs.flatMap Coord.text ++ rest ∧ cs.length = n ∧
      ∀ c ∈ cs, (∀ b ∈ c.before ++ c.after, isSpace b = true) ∧ c.digits ≠ [] ∧
        ∀ b ∈ c.digits, isDigit b = true := by
  intro n
  induction n with
  | zero =>
    intro l rest cs h
    cases h
    exact ⟨rfl, rfl, fun c hc => by cases hc⟩
  | succ n ih =>
    intro l rest cs h
    obtain ⟨⟨c, l'⟩, hc, h⟩ := Option.bind_eq_some_iff.1 h
    obtain ⟨⟨cs', rest'⟩, hcs, h⟩ := Option.bind_eq_some_iff.1 h
    cases h
    obtain ⟨hl, hspaces, hne, hdigits⟩ := readCoord_eq hc
    obtain ⟨hl', hlen, hall⟩ := ih hcs
    refine ⟨by rw [hl, hl', List.flatMap_cons, List.append_assoc],
      by rw [List.length_cons, hlen], ?_⟩
    intro x hx
    rcases List.mem_cons.1 hx with rfl | hx
    · exact ⟨hspaces, hne, hdigits⟩
    · exact hall x hx

/-- An annotation is read as it stands. -/
theorem readNote_eq {l rest : Bytes} {note : Note} (h : readNote l = some (note, rest)) :
    note.Proper ∧ ∃ lead gap, (∀ b ∈ lead ++ gap, isSpace b = true) ∧
      l = lead ++ note.label ++ gap ++ 0x5B :: (note.box ++ 0x5D :: kClose ++ rest) := by
  unfold readNote at h
  dsimp only at h
  split at h
  · cases h
  rename_i hlabel
  split at h
  · rename_i inner hinner
    obtain ⟨⟨first, l1⟩, hfirst, h⟩ := Option.bind_eq_some_iff.1 h
    obtain ⟨⟨more, l2⟩, hmore, h⟩ := Option.bind_eq_some_iff.1 h
    dsimp only at h
    split at h
    · rename_i hclose
      cases h
      obtain ⟨hl1, hfirst_ne, hfirst_all⟩ := readDigits_eq hfirst
      obtain ⟨hl2, hlen, hall⟩ := readCoords_eq hmore
      dsimp only at hl2
      obtain ⟨rest, hrest⟩ := List.isPrefixOf_iff_prefix.1 hclose
      refine ⟨⟨by simpa using hlabel, fun b hb => List.mem_takeWhile_imp hb, hfirst_ne,
        hfirst_all, hlen,
        fun c hc => (hall c hc).1, fun c hc => (hall c hc).2.1, fun c hc => (hall c hc).2.2⟩, ?_⟩
      refine ⟨l.takeWhile isSpace,
        ((l.dropWhile isSpace).dropWhile isLabelChar).takeWhile isSpace, ?_, ?_⟩
      · intro b hb
        rcases List.mem_append.1 hb with hb | hb
        · exact List.mem_takeWhile_imp hb
        · exact List.mem_takeWhile_imp hb
      · have hdrop : l2.drop (kClose.length + 1) = rest := by
          rw [← hrest, List.cons_append, List.drop_succ_cons]
          exact List.drop_left
        have hlead : l = l.takeWhile isSpace ++ l.dropWhile isSpace :=
          List.takeWhile_append_dropWhile.symm
        have hword : l.dropWhile isSpace = (l.dropWhile isSpace).takeWhile isLabelChar ++
            (l.dropWhile isSpace).dropWhile isLabelChar := List.takeWhile_append_dropWhile.symm
        have hgap : (l.dropWhile isSpace).dropWhile isLabelChar =
            ((l.dropWhile isSpace).dropWhile isLabelChar).takeWhile isSpace ++ 0x5B :: inner := by
          rw [← hinner]
          exact List.takeWhile_append_dropWhile.symm
        rw [hdrop]
        conv_lhs => rw [hlead, hword, hgap, hl1, hl2, ← hrest]
        simp [Note.box]
    · cases h
  · cases h

/-- The pieces are the content, and its annotations are proper. -/
theorem pieces_raw : ∀ {n : Nat} {content : Bytes}, content.length < n →
    (pieces n content).flatMap Piece.raw = content ∧
      ∀ {raw note}, Piece.note raw note ∈ pieces n content → note.Proper := by
  intro n
  induction n with
  | zero =>
    intro content h
    omega
  | succ n ih =>
    intro content h
    rw [pieces]
    cases hfind : findSub kOpen content with
    | none => exact ⟨by simp [Piece.raw], fun hmem => by simp at hmem⟩
    | some r =>
      obtain ⟨before, rest⟩ := r
      have hcontent := findSub_eq hfind
      obtain ⟨behind, hbehind⟩ := findSub_starts hfind
      have hdrop : rest.drop kOpen.length = behind := by
        rw [← hbehind]
        exact List.drop_left
      have hlen : content.length = before.length + (7 + behind.length) := by
        rw [hcontent, ← hbehind, List.length_append, List.length_append]
        rfl
      dsimp only
      rw [hdrop]
      cases hread : readNote behind with
      | none =>
        obtain ⟨hraw, hproper⟩ := @ih behind (by omega)
        refine ⟨?_, fun hmem => hproper (by simpa using hmem)⟩
        simp only [List.flatMap_cons, Piece.raw, hraw]
        rw [hcontent, hbehind]
      | some r =>
        obtain ⟨note, rest'⟩ := r
        obtain ⟨hnote, lead, gap, -, hnear⟩ := readNote_eq hread
        have hsuffix : rest' <:+ rest := by
          rw [← hbehind, hnear]
          exact ⟨kOpen ++ (lead ++ note.label ++ gap ++ 0x5B :: (note.box ++ 0x5D :: kClose)),
            by simp⟩
        have hle : rest'.length < n := by
          have := congrArg List.length hnear
          simp only [List.length_append, List.length_cons] at this
          omega
        obtain ⟨hraw, hproper⟩ := @ih rest' hle
        refine ⟨?_, fun {raw note'} hmem => ?_⟩
        · simp only [List.flatMap_cons, Piece.raw, hraw]
          conv_rhs => rw [hcontent]
          obtain ⟨pre, hpre⟩ := hsuffix
          rw [← hpre]
          simp
        · simp only [List.mem_cons, reduceCtorEq, Piece.note.injEq, false_or] at hmem
          rcases hmem with ⟨-, rfl⟩ | hmem
          · exact hnote
          · exact hproper hmem

end Reading

/-! ## The line of an annotation -/

/-- What stands behind the last line break. -/
def lastLine (l : Bytes) : Bytes := l.rtakeWhile (· != 0x0A)

/-- An annotation behind these pieces has only whitespace before it on its
line, or stands right behind another annotation. -/
def Leads (done : List Piece) : Prop :=
  (∀ b ∈ lastLine (done.flatMap Piece.raw), isSpace b = true) ∨
    ∃ done' raw note, done = done' ++ [.note raw note, .text []]

section Lines

theorem length_splitOn (c : UInt8) (l : Bytes) : (l.splitOn c).length = l.count c + 1 := by
  induction l with
  | nil => rfl
  | cons b l ih =>
    rw [List.splitOn_cons_eq_if_modifyHead, List.count_cons]
    split
    · rename_i hb
      rw [List.length_cons, ih]
    · rw [List.length_modifyHead, ih, Nat.add_zero]

theorem lastLine_concat (l : Bytes) (b : UInt8) :
    lastLine (l ++ [b]) = if b = 0x0A then [] else lastLine l ++ [b] := by
  rw [lastLine, List.rtakeWhile_concat, lastLine]
  by_cases hb : b = 0x0A <;> simp [hb]

theorem lastLine_append (l x : Bytes) :
    lastLine (l ++ x) = if 0x0A ∈ x then lastLine x else lastLine l ++ x := by
  induction x using List.reverseRecOn with
  | nil => simp
  | append_singleton x b ih =>
    rw [← List.append_assoc, lastLine_concat, lastLine_concat, ih]
    by_cases hb : b = 0x0A
    · simp [hb]
    · have hb' : ¬(0x0A : UInt8) = b := fun e => hb e.symm
      by_cases hx : (0x0A : UInt8) ∈ x <;> simp [hb, hb', hx]

/-- The last line of a text, and what stands before it. -/
theorem lastLine_split (l : Bytes) : (0x0A ∉ l ∧ lastLine l = l) ∨
    ∃ p, l = p ++ 0x0A :: lastLine l := by
  induction l using List.reverseRecOn with
  | nil => exact Or.inl ⟨by simp, rfl⟩
  | append_singleton l b ih =>
    rw [lastLine_concat]
    by_cases hb : b = 0x0A
    · exact Or.inr ⟨l, by simp [hb]⟩
    · rw [if_neg hb]
      rcases ih with ⟨hl, he⟩ | ⟨p, he⟩
      · refine Or.inl ⟨?_, by rw [he]⟩
        rw [List.mem_append, List.mem_singleton]
        rintro (h | h)
        · exact hl h
        · exact hb h.symm
      · refine Or.inr ⟨p, ?_⟩
        conv_lhs => rw [he]
        simp

/-- The line a text without line breaks ends on. -/
theorem line_at (a c : Bytes) {x : Bytes} (hx : 0x0A ∉ x) :
    ((a ++ (x ++ 0x0A :: c)).splitOn 0x0A)[a.count 0x0A]? = some (lastLine a ++ x) := by
  rcases lastLine_split a with ⟨ha, he⟩ | ⟨p, he⟩
  · have hax : 0x0A ∉ a ++ x := by simp [ha, hx]
    rw [← List.append_assoc, List.splitOn_append_cons_self_of_not_mem hax, he,
      List.count_eq_zero_of_not_mem ha]
    rfl
  · have hlast : 0x0A ∉ lastLine a := by
      intro hmem
      have := List.mem_rtakeWhile_imp hmem
      simp at this
    generalize lastLine a = q at he hlast
    subst he
    have hqx : 0x0A ∉ q ++ x := by simp [hlast, hx]
    rw [List.append_assoc, List.cons_append, List.splitOn_append_cons_self, ← List.append_assoc q,
      List.splitOn_append_cons_self_of_not_mem hqx, List.count_append, List.count_cons_self,
      List.count_eq_zero_of_not_mem hlast, List.getElem?_append_right (by rw [length_splitOn]),
      length_splitOn, Nat.zero_add, Nat.sub_self]
    rfl

/-- The rewritten text leads to an annotation as the content does. -/
theorem Leads.out {done : List Piece} (h : Leads done) :
    ∀ b ∈ lastLine (done.flatMap Piece.out), isSpace b = true := by
  rcases h with h | ⟨done', raw, note, rfl⟩
  · induction done using List.reverseRecOn with
    | nil => intro b hb; cases hb
    | append_singleton done p ih =>
      rw [List.flatMap_append, List.flatMap_singleton] at h ⊢
      cases p with
      | note raw note =>
        rw [Piece.out, ← List.append_assoc, lastLine_concat, if_pos rfl]
        intro b hb
        cases hb
      | text t =>
        rw [Piece.raw, lastLine_append] at h
        rw [Piece.out, lastLine_append]
        by_cases ht : 0x0A ∈ t
        · rwa [if_pos ht] at h ⊢
        · rw [if_neg ht] at h ⊢
          intro b hb
          rcases List.mem_append.1 hb with hb | hb
          · exact ih (fun b hb => h b (List.mem_append_left _ hb)) b hb
          · exact h b (List.mem_append_right _ hb)
  · have hout : (done' ++ [Piece.note raw note, .text []]).flatMap Piece.out =
        (done'.flatMap Piece.out ++ note.line) ++ [0x0A] := by
      simp [Piece.out]
    rw [hout, lastLine_concat, if_pos rfl]
    intro b hb
    cases hb

end Lines

/-! ## The matcher on a rewritten annotation -/

def isCoord (c : UInt8) : Bool := isDigit c || c == 0x2E || c == 0x2C || c == 0x20

/-- The whitespace between the coordinates is blanks. -/
def Note.Blanks (note : Note) : Prop := ∀ c ∈ note.more, ∀ b ∈ c.before ++ c.after, b = 0x20

/-- The coordinates as written. -/
def Note.coords (note : Note) : List Nat :=
  ofDigits note.first :: note.more.map fun c => ofDigits c.digits

section Match
variable {ν : Type} {fromChars : Bytes → Option (ν × Bytes)}

theorem consume_append (start rest : Bytes) : consume start (start ++ rest) = (true, rest) := by
  rw [consume, if_pos (List.isPrefixOf_iff_prefix.2 (List.prefix_append _ _))]
  rw [List.drop_left]

theorem isWord_of_isLabelChar {b : UInt8} (h : isLabelChar b = true) : isWord b = true := by
  simp only [isLabelChar, isWord, isAlpha, Bool.or_eq_true, Bool.and_eq_true] at h ⊢
  tauto

/-- The matcher behind the opening brackets.
mirrors src/mapping/deepseek.cpp:82-118 -/
def matchBox (fromChars : Bytes → Option (ν × Bytes)) (label line : Bytes) :
    Option (AnnotationLine ν) :=
  if (line.takeWhile isCoord).isEmpty then none
  else
    match consume (ascii "]]") (line.dropWhile isCoord) with
    | (false, _) => none
    | (true, rest) =>
      if !(stripView (consume (ascii "<|/det|>") rest).2).isEmpty then none
      else some ⟨label, parseCoords fromChars (line.takeWhile isCoord)⟩

theorem match_head {note : Note} (h : note.Proper) (y : Bytes) :
    matchAnnotationLine fromChars
      (ascii "<|ref|>" ++ (note.label ++ (ascii "<|/ref|><|det|>[[" ++ y))) =
      matchBox fromChars note.label y := by
  have hword : ∀ b ∈ note.label, isWord b = true := fun b hb =>
    isWord_of_isLabelChar (h.label_chars b hb)
  have hsplit : ascii "<|/ref|><|det|>[[" ++ y =
      ascii "<|/ref|>" ++ (ascii "<|det|>" ++ (ascii "[[" ++ y)) := by
    simp [ascii]
  have htake :
    (note.label ++ (ascii "<|/ref|>" ++ (ascii "<|det|>" ++ (ascii "[[" ++ y)))).takeWhile isWord =
      note.label := by
    rw [List.takeWhile_append_of_pos hword]
    simp [ascii, isWord, isAlpha, isDigit]
  have hdrop :
    (note.label ++ (ascii "<|/ref|>" ++ (ascii "<|det|>" ++ (ascii "[[" ++ y)))).dropWhile isWord =
      ascii "<|/ref|>" ++ (ascii "<|det|>" ++ (ascii "[[" ++ y)) := by
    rw [List.dropWhile_append_of_pos hword]
    simp [ascii, isWord, isAlpha, isDigit]
  have hne : note.label.isEmpty = false := by
    rw [List.isEmpty_eq_false_iff]
    exact h.label_ne
  unfold matchAnnotationLine
  simp only [consume_append, hsplit, htake, hdrop, hne, Bool.false_eq_true, if_false]
  rfl

theorem dropWhile_spaces {sp z : Bytes} (hsp : ∀ b ∈ sp, isSpace b = true)
    (hz : ∀ b, z.head? = some b → isSpace b = false) : (sp ++ z).dropWhile isSpace = z := by
  rw [List.dropWhile_append_of_pos hsp]
  cases z with
  | nil => rfl
  | cons b z => exact List.dropWhile_cons_of_neg (by rw [hz b rfl]; exact Bool.false_ne_true)

/-- Stripping drops whitespace behind a text that has more than that. -/
theorem rdropWhile_behind {p : UInt8 → Bool} (l : Bytes) {y : Bytes} {b : UInt8} (hb : b ∈ y)
    (hp : p b = false) : (l ++ y).rdropWhile p = l ++ y.rdropWhile p := by
  induction y using List.reverseRecOn with
  | nil => cases hb
  | append_singleton y c ih =>
    rw [← List.append_assoc]
    cases hc : p c with
    | false =>
      rw [List.rdropWhile_concat_neg _ _ _ (by simp [hc]),
        List.rdropWhile_concat_neg _ _ _ (by simp [hc]), List.append_assoc]
    | true =>
      rw [List.rdropWhile_concat_pos _ _ _ hc, List.rdropWhile_concat_pos _ _ _ hc]
      apply ih
      rcases List.mem_append.1 hb with hb | hb
      · exact hb
      · rw [List.mem_singleton.1 hb, hc] at hp
        cases hp

/-- A number between whitespace. -/
theorem stripView_digits {pre digits post : Bytes} (hpre : ∀ b ∈ pre, isSpace b = true)
    (hpost : ∀ b ∈ post, isSpace b = true) (hdigits : ∀ b ∈ digits, isDigit b = true)
    (hne : digits ≠ []) : stripView (pre ++ digits ++ post) = digits := by
  have hspace : ∀ b, (digits ++ post).head? = some b → isSpace b = false := by
    obtain ⟨d, rest, rfl⟩ := List.exists_cons_of_ne_nil hne
    rintro b ⟨⟩
    exact (isDigit_cases (hdigits _ List.mem_cons_self)).1
  unfold stripView
  rw [List.append_assoc, dropWhile_spaces hpre hspace, List.rdropWhile, List.reverse_append,
    List.dropWhile_append_of_pos (by simpa using hpost)]
  exact rdropWhile_space_digits hdigits

/-- `std::from_chars` reads integers that a `double` holds as they are. -/
def ReadsIntegers (fromChars : Bytes → Option (ν × Bytes)) (number : Nat → ν) : Prop :=
  ∀ digits, digits ≠ [] → (∀ b ∈ digits, isDigit b = true) → ofDigits digits < 2 ^ 53 →
    fromChars digits = some (number (ofDigits digits), [])

theorem parseNumber_digits {number : Nat → ν} (hfrom : ReadsIntegers fromChars number)
    {pre digits post : Bytes} (hpre : ∀ b ∈ pre, isSpace b = true)
    (hpost : ∀ b ∈ post, isSpace b = true) (hdigits : ∀ b ∈ digits, isDigit b = true)
    (hne : digits ≠ []) (hlt : ofDigits digits < 2 ^ 53) :
    parseNumber fromChars (pre ++ digits ++ post) = some (number (ofDigits digits)) := by
  have hdot : (digits == [0x2E]) = false := by
    rw [beq_eq_false_iff_ne]
    rintro rfl
    exact absurd (hdigits 0x2E List.mem_cons_self) (by decide)
  unfold parseNumber
  rw [stripView_digits hpre hpost hdigits hne]
  simp [hne, hdot, hfrom digits hne hdigits hlt]

/-- The texts between the commas. -/
def segments (pre digits : Bytes) : List Coord → List Bytes
  | [] => [pre ++ digits ++ []]
  | c :: cs => (pre ++ digits ++ c.before) :: segments c.after c.digits cs

theorem splitOn_box {pre digits : Bytes} {cs : List Coord} (hpre : ∀ b ∈ pre, isSpace b = true)
    (hdigits : ∀ b ∈ digits, isDigit b = true)
    (hspaces : ∀ c ∈ cs, ∀ b ∈ c.before ++ c.after, isSpace b = true)
    (hall : ∀ c ∈ cs, ∀ b ∈ c.digits, isDigit b = true) :
    (pre ++ digits ++ cs.flatMap Coord.text).splitOn 0x2C = segments pre digits cs := by
  have hcomma : ∀ {l : Bytes}, (∀ b ∈ l, isSpace b = true) → 0x2C ∉ l := fun h hmem =>
    absurd (h _ hmem) (by decide)
  have hcomma' : ∀ {l : Bytes}, (∀ b ∈ l, isDigit b = true) → 0x2C ∉ l := fun h hmem =>
    absurd (h _ hmem) (by decide)
  induction cs generalizing pre digits with
  | nil =>
    rw [List.flatMap_nil, segments, List.splitOn_eq_singleton]
    simp [hcomma hpre, hcomma' hdigits]
  | cons c cs ih =>
    have hc := hspaces c List.mem_cons_self
    have hbefore : ∀ b ∈ c.before, isSpace b = true := fun b hb => hc b (List.mem_append_left _ hb)
    have hafter : ∀ b ∈ c.after, isSpace b = true := fun b hb => hc b (List.mem_append_right _ hb)
    have hsplit : pre ++ digits ++ (c :: cs).flatMap Coord.text =
        (pre ++ digits ++ c.before) ++ 0x2C :: (c.after ++ c.digits ++ cs.flatMap Coord.text) := by
      simp [Coord.text]
    have hhead : 0x2C ∉ pre ++ digits ++ c.before := by
      simp [hcomma hpre, hcomma' hdigits, hcomma hbefore]
    rw [hsplit, List.splitOn_append_cons_self_of_not_mem hhead, segments, ih hafter
      (hall c List.mem_cons_self) (fun d hd => hspaces d (List.mem_cons_of_mem _ hd))
      (fun d hd => hall d (List.mem_cons_of_mem _ hd))]

theorem mapM_segments {number : Nat → ν} (hfrom : ReadsIntegers fromChars number)
    {pre digits : Bytes} {cs : List Coord} (hpre : ∀ b ∈ pre, isSpace b = true)
    (hdigits : ∀ b ∈ digits, isDigit b = true) (hne : digits ≠ []) (hlt : ofDigits digits < 2 ^ 53)
    (hcs : ∀ c ∈ cs, (∀ b ∈ c.before ++ c.after, isSpace b = true) ∧
      (∀ b ∈ c.digits, isDigit b = true) ∧ c.digits ≠ [] ∧ ofDigits c.digits < 2 ^ 53) :
    (segments pre digits cs).mapM (parseNumber fromChars) =
      some (number (ofDigits digits) :: cs.map fun c => number (ofDigits c.digits)) := by
  induction cs generalizing pre digits with
  | nil =>
    rw [segments, List.mapM_cons, parseNumber_digits hfrom hpre (by simp) hdigits hne hlt]
    rfl
  | cons c cs ih =>
    obtain ⟨hspaces, hcdigits, hcne, hclt⟩ := hcs c List.mem_cons_self
    rw [segments, List.mapM_cons, parseNumber_digits hfrom hpre
      (fun b hb => hspaces b (List.mem_append_left _ hb)) hdigits hne hlt,
      ih (fun b hb => hspaces b (List.mem_append_right _ hb)) hcdigits hcne hclt
        fun d hd => hcs d (List.mem_cons_of_mem _ hd)]
    rfl

/-- The coordinates between the brackets are read as written. -/
theorem parseCoords_box {number : Nat → ν} (hfrom : ReadsIntegers fromChars number) {note : Note}
    (h : note.Proper) (hlt : ∀ n ∈ note.coords, n < 2 ^ 53) :
    parseCoords fromChars note.box = note.coords.map number := by
  have hfirst : ofDigits note.first < 2 ^ 53 := hlt _ List.mem_cons_self
  have hmore : ∀ c ∈ note.more, ofDigits c.digits < 2 ^ 53 := fun c hc =>
    hlt _ (List.mem_cons_of_mem _ (List.mem_map.2 ⟨c, hc, rfl⟩))
  have hnil : ∀ b ∈ ([] : Bytes), isSpace b = true := fun b hb => by cases hb
  have hsplit := splitOn_box hnil h.first_digits h.spaces h.digits
  rw [List.nil_append] at hsplit
  rw [parseCoords, Note.box, hsplit, mapM_segments hfrom hnil h.first_digits h.first_ne hfirst
    fun c hc => ⟨h.spaces c hc, h.digits c hc, h.digits_ne c hc, hmore c hc⟩]
  simp [Note.coords, h.three, Function.comp_def]

/-! ### Blanks -/

theorem mem_box {note : Note} (h : note.Proper) {b : UInt8} (hb : b ∈ note.box) :
    isDigit b = true ∨ b = 0x2C ∨ isSpace b = true := by
  rcases List.mem_append.1 hb with hb | hb
  · exact Or.inl (h.first_digits b hb)
  · obtain ⟨c, hc, hb⟩ := List.mem_flatMap.1 hb
    rw [Coord.text, List.mem_append, List.mem_cons, List.mem_append] at hb
    rcases hb with hb | rfl | hb | hb
    · exact Or.inr (Or.inr (h.spaces c hc b (List.mem_append_left _ hb)))
    · exact Or.inr (Or.inl rfl)
    · exact Or.inr (Or.inr (h.spaces c hc b (List.mem_append_right _ hb)))
    · exact Or.inl (h.digits c hc b hb)

/-- Blanks are the only whitespace the matcher takes. -/
theorem blanks_iff {note : Note} (h : note.Proper) :
    note.Blanks ↔ ∀ b ∈ note.box, isCoord b = true := by
  constructor
  · intro hblanks b hb
    rcases List.mem_append.1 hb with hb | hb
    · simp [isCoord, h.first_digits b hb]
    · obtain ⟨c, hc, hb⟩ := List.mem_flatMap.1 hb
      rw [Coord.text, List.mem_append, List.mem_cons, List.mem_append] at hb
      rcases hb with hb | rfl | hb | hb
      · rw [hblanks c hc b (List.mem_append_left _ hb)]
        rfl
      · rfl
      · rw [hblanks c hc b (List.mem_append_right _ hb)]
        rfl
      · simp [isCoord, h.digits c hc b hb]
  · intro hcoord c hc b hb
    have hspace := h.spaces c hc b hb
    have hbox : b ∈ note.box := by
      refine List.mem_append_right _ (List.mem_flatMap.2 ⟨c, hc, ?_⟩)
      rw [Coord.text, List.mem_append, List.mem_cons, List.mem_append]
      rcases List.mem_append.1 hb with hb | hb
      · exact Or.inl hb
      · exact Or.inr (Or.inr (Or.inl hb))
    have hb' := hcoord b hbox
    simp only [isCoord, Bool.or_eq_true, beq_iff_eq] at hb'
    rcases hb' with ((hb' | rfl) | rfl) | rfl
    · rw [(isDigit_cases hb').1] at hspace
      cases hspace
    · cases hspace
    · cases hspace
    · rfl

/-- The start of a text whose first byte that fails `p` is `b`. -/
theorem dropWhile_of_isPrefix {p : UInt8 → Bool} {y u w : Bytes} {b : UInt8}
    (hu : ∀ c ∈ u, p c = true)
    (hb : p b = false) (h : y <+: u ++ b :: w) :
    y.dropWhile p = [] ∨ ∃ w', y.dropWhile p = b :: w' := by
  rcases Nat.le_total y.length u.length with hle | hle
  · have hyu : y <+: u := List.prefix_of_prefix_length_le h (List.prefix_append _ _) hle
    refine Or.inl (List.dropWhile_eq_nil_iff.2 fun c hc => ?_)
    exact hu c (hyu.mem hc)
  · obtain ⟨z, rfl⟩ := List.prefix_of_prefix_length_le (List.prefix_append u (b :: w)) h hle
    rw [List.prefix_append_right_inj] at h
    rw [List.dropWhile_append_of_pos hu]
    cases z with
    | nil => exact Or.inl rfl
    | cons c z =>
      rw [List.cons_prefix_cons] at h
      rw [h.1, List.dropWhile_cons_of_neg (by simp [hb])]
      exact Or.inr ⟨z, rfl⟩

theorem matchBox_blanks {number : Nat → ν} (hfrom : ReadsIntegers fromChars number) {note : Note}
    (h : note.Proper) (hlt : ∀ n ∈ note.coords, n < 2 ^ 53) (hblanks : note.Blanks) :
    matchBox fromChars note.label (note.box ++ ascii "]]<|/det|>") =
      some ⟨note.label, note.coords.map number⟩ := by
  have hcoord := (blanks_iff h).1 hblanks
  have htail : ascii "]]<|/det|>" = ascii "]]" ++ (ascii "<|/det|>" ++ []) := by decide
  have htake : (note.box ++ ascii "]]<|/det|>").takeWhile isCoord = note.box := by
    rw [List.takeWhile_append_of_pos hcoord]
    simp [ascii, isCoord, isDigit]
  have hdrop : (note.box ++ ascii "]]<|/det|>").dropWhile isCoord =
    ascii "]]" ++ (ascii "<|/det|>" ++ []) := by
    rw [List.dropWhile_append_of_pos hcoord, ← htail]
    simp [ascii, isCoord, isDigit]
  have hne : note.box.isEmpty = false := by
    rw [List.isEmpty_eq_false_iff, Note.box]
    simp [h.first_ne]
  unfold matchBox
  rw [htake, hdrop, hne, consume_append]
  simp only [consume_append, Bool.false_eq_true, if_false, parseCoords_box hfrom h hlt]
  rfl

theorem matchBox_other {note : Note} (h : note.Proper) (hblanks : ¬note.Blanks) {y : Bytes}
    (hy : y <+: note.box ++ ascii "]]<|/det|>") : matchBox fromChars note.label y = none := by
  rw [blanks_iff h] at hblanks
  -- the first byte the matcher does not take
  have hsplit : note.box = note.box.takeWhile isCoord ++ note.box.dropWhile isCoord :=
    List.takeWhile_append_dropWhile.symm
  have hne : note.box.dropWhile isCoord ≠ [] := by
    rw [ne_eq, List.dropWhile_eq_nil_iff]
    simpa using hblanks
  obtain ⟨b, w, hbw⟩ := List.exists_cons_of_ne_nil hne
  have hb : isCoord b = false := by
    have := List.head_dropWhile_not isCoord (l := note.box) hne
    simpa [hbw] using this
  have hbracket : b ≠ 0x5D := by
    rintro rfl
    have hmem : (0x5D : UInt8) ∈ note.box := by
      rw [hsplit, hbw]
      simp
    rcases mem_box h hmem with h' | h' | h'
    · cases h'
    · cases h'
    · cases h'
  rw [hsplit, hbw, List.append_assoc, List.cons_append] at hy
  unfold matchBox
  split
  · rfl
  rcases dropWhile_of_isPrefix (fun c hc => List.mem_takeWhile_imp hc) hb hy with he | ⟨w', he⟩
  · rw [he]
    rfl
  · rw [he, consume, if_neg]
    simp [ascii, List.isPrefixOf, hbracket.symm]

/-- The first line of a text that a line break ends. -/
theorem firstLine_eq (l c : Bytes) :
    ∃ c', l ++ 0x0A :: c = l.takeWhile (· != 0x0A) ++ 0x0A :: c' := by
  have hsplit : l = l.takeWhile (· != 0x0A) ++ l.dropWhile (· != 0x0A) :=
    List.takeWhile_append_dropWhile.symm
  cases hdrop : l.dropWhile (· != 0x0A) with
  | nil =>
    rw [hdrop, List.append_nil] at hsplit
    exact ⟨c, by rw [← hsplit]⟩
  | cons b w =>
    have hne : l.dropWhile (· != 0x0A) ≠ [] := by simp [hdrop]
    have hb : b = 0x0A := by
      have := List.head_dropWhile_not (· != 0x0A) (l := l) hne
      simpa [hdrop] using this
    refine ⟨w ++ 0x0A :: c, ?_⟩
    conv_lhs => rw [hsplit, hdrop, hb]
    simp

/-- The matcher on the first line of a rewritten annotation, behind
whitespace. -/
theorem match_firstLine {note : Note} (h : note.Proper) {sp : Bytes}
    (hsp : ∀ b ∈ sp, isSpace b = true) :
    ∃ y, y <+: note.box ++ ascii "]]<|/det|>" ∧
      (note.Blanks → y = note.box ++ ascii "]]<|/det|>") ∧
      matchAnnotationLine fromChars (stripView (sp ++ note.line.takeWhile (· != 0x0A))) =
        matchBox fromChars note.label y := by
  have hline : note.line = (ascii "<|ref|>" ++ (note.label ++ ascii "<|/ref|><|det|>[[")) ++
      (note.box ++ ascii "]]<|/det|>") := by
    simp [Note.line]
  have hhead : ∀ b ∈ ascii "<|ref|>" ++ (note.label ++ ascii "<|/ref|><|det|>[["),
      (b != 0x0A) = true := by
    intro b hb
    rw [List.mem_append, List.mem_append] at hb
    rcases hb with hb | hb | hb
    · exact List.all_eq_true.1 (show (ascii "<|ref|>").all (· != 0x0A) = true by decide) b hb
    · rw [bne_iff_ne]
      rintro rfl
      exact absurd (h.label_chars _ hb) (by decide)
    · exact List.all_eq_true.1
        (show (ascii "<|/ref|><|det|>[[").all (· != 0x0A) = true by decide) b hb
  obtain ⟨d, first, hfirst⟩ := List.exists_cons_of_ne_nil h.first_ne
  have hd : isDigit d = true := h.first_digits d (hfirst ▸ List.mem_cons_self)
  -- the first digit is never stripped
  have hmem : d ∈ (note.box ++ ascii "]]<|/det|>").takeWhile (· != 0x0A) := by
    have hne : (d != 0x0A) = true := by
      rw [bne_iff_ne]
      rintro rfl
      cases hd
    rw [Note.box, hfirst, List.cons_append, List.cons_append, List.takeWhile_cons, if_pos hne]
    exact List.mem_cons_self
  refine ⟨((note.box ++ ascii "]]<|/det|>").takeWhile (· != 0x0A)).rdropWhile isSpace, ?_, ?_, ?_⟩
  · exact (List.rdropWhile_prefix _ _).trans (List.takeWhile_prefix _)
  · intro hblanks
    have hall : ∀ b ∈ note.box ++ ascii "]]<|/det|>", (b != 0x0A) = true := by
      intro b hb
      rcases List.mem_append.1 hb with hb | hb
      · rw [bne_iff_ne]
        rintro rfl
        exact absurd ((blanks_iff h).1 hblanks _ hb) (by decide)
      · exact List.all_eq_true.1 (show (ascii "]]<|/det|>").all (· != 0x0A) = true by decide) b hb
    rw [List.takeWhile_eq_self_iff.2 hall]
    have htail : ascii "]]<|/det|>" = ascii "]]<|/det|" ++ [0x3E] := by decide
    rw [htail, ← List.append_assoc, List.rdropWhile_concat_neg _ _ _ (by decide)]
  · rw [hline, List.takeWhile_append_of_pos hhead]
    unfold stripView
    rw [dropWhile_spaces hsp (by simp [ascii, isSpace]),
      rdropWhile_behind _ hmem (isDigit_cases hd).1]
    rw [List.append_assoc, List.append_assoc]
    exact match_head h _

/-- **The matcher takes a rewritten annotation exactly when the whitespace
between its coordinates is blanks**, and then reads its label and its four
coordinates. -/
theorem match_rewritten_iff {number : Nat → ν} (hfrom : ReadsIntegers fromChars number)
    {content raw : Bytes} {done rest : List Piece} {note : Note}
    (hpieces : pieces (content.length + 1) content = done ++ .note raw note :: rest)
    (hleads : Leads done) (hlt : ∀ n ∈ note.coords, n < 2 ^ 53) :
    annotationAt fromChars ((normalizeUnlimitedOcr content).splitOn 0x0A)
        ((done.flatMap Piece.out).count 0x0A) =
      some ⟨note.label, note.coords.map number⟩ ↔ note.Blanks := by
  have h : note.Proper :=
    (pieces_raw (Nat.lt_succ_self content.length)).2
      (show Piece.note raw note ∈ _ by simp [hpieces])
  obtain ⟨c', hfirst⟩ := firstLine_eq note.line (rest.flatMap Piece.out)
  have hout : normalizeUnlimitedOcr content =
      done.flatMap Piece.out ++ (note.line.takeWhile (· != 0x0A) ++ 0x0A :: c') := by
    rw [← hfirst, normalizeUnlimitedOcr, hpieces]
    simp [Piece.out]
  have hbreak : 0x0A ∉ note.line.takeWhile (· != 0x0A) := by
    intro hmem
    have := List.mem_takeWhile_imp hmem
    simp at this
  rw [annotationAt, hout, line_at _ _ hbreak, Option.bind_some]
  obtain ⟨y, hy, hwhole, hmatch⟩ := @match_firstLine ν fromChars note h _ hleads.out
  rw [hmatch]
  constructor
  · intro hsome
    by_contra hblanks
    rw [matchBox_other h hblanks hy] at hsome
    cases hsome
  · intro hblanks
    rw [hwhole hblanks]
    exact matchBox_blanks hfrom h hlt hblanks

end Match

/-! ## Which annotations open a block -/

/-- A line lies in the table behind line `t`: a `<table` stands behind `t`,
and no `</table>` ends it before the line. -/
def InTable (lines : List Bytes) (t k : Nat) : Prop :=
  (∃ s, t < s ∧ s ≤ k ∧ hasOpen lines s) ∧
    ∀ s c, t < s → s ≤ c → c < k → hasOpen lines s → ¬hasClose lines c

section Covered
variable {ν : Type} (fromChars : Bytes → Option (ν × Bytes)) (lines : List Bytes)

def isTable (t : Nat) : Prop :=
  ∃ note, annotationAt fromChars lines t = some note ∧ note.label = ascii "table"

/-- A line lies in the table of an earlier table annotation that does not
itself lie in such a table. -/
def Covered (k : Nat) : Prop :=
  ∃ t, ∃ _ : t < k, isTable fromChars lines t ∧ opensBlock fromChars lines t = true ∧ ¬Covered t ∧
    InTable lines t k
termination_by k

variable {fromChars lines}

theorem mem_tableTaken_iff {t k : Nat} (hk : k < lines.length) (htk : t < k) :
    k ∈ tableTaken false (t + 1) (lines.drop (t + 1)) ↔ InTable lines t k := by
  rw [mem_tableTaken k rfl, InTable]
  simp only [Begun, Bool.false_eq_true, false_or]
  constructor
  · rintro ⟨-, -, hopen, hclose⟩
    exact ⟨hopen, fun s c hs hsc hck ho => hclose c (by omega) hck ⟨s, hs, hsc, ho⟩⟩
  · rintro ⟨hopen, hclose⟩
    refine ⟨htk, hk, hopen, fun c _ hck hbegun => ?_⟩
    obtain ⟨s, hs, hsc, ho⟩ := hbegun
    exact hclose s c hs hsc hck ho

/-- Blocks are opened from the scan's line on. -/
theorem scanBlocks_ge : ∀ (n i : Nat) (visited : List Nat),
    ∀ b ∈ scanBlocks fromChars lines n i visited, i ≤ b.opened := by
  intro n
  induction n with
  | zero => intro i visited b hb; cases hb
  | succ n ih =>
    intro i visited b hb
    have hnext : ∀ visited, b ∈ scanBlocks fromChars lines n (i + 1) visited → i ≤ b.opened :=
      fun visited hb => Nat.le_of_succ_le (ih (i + 1) visited b hb)
    rw [scanBlocks] at hb
    split at hb
    · cases hb
    split at hb
    · exact hnext _ hb
    split at hb
    · exact hnext _ hb
    split at hb
    · exact hnext _ hb
    split at hb
    · rcases List.mem_cons.1 hb with rfl | hb
      · exact Nat.le_refl _
      · exact hnext _ hb
    · rcases List.mem_cons.1 hb with rfl | hb
      · exact Nat.le_refl _
      · obtain ⟨-, -, hle, -, -⟩ :=
          @textTaken_spec ν fromChars lines visited _ (i + 1) rfl (by omega)
        exact Nat.le_trans (Nat.le_of_succ_le hle) (ih _ _ b hb)

/-- A table annotation before line `i` whose table the scan takes covers line
`v`. -/
def CoveredBefore (fromChars : Bytes → Option (ν × Bytes)) (lines : List Bytes)
    (i v : Nat) : Prop :=
  ∃ t, t < i ∧ isTable fromChars lines t ∧ opensBlock fromChars lines t = true ∧
    ¬Covered fromChars lines t ∧ InTable lines t v

theorem covered_iff (k : Nat) : Covered fromChars lines k ↔ CoveredBefore fromChars lines k k := by
  rw [Covered]
  simp only [CoveredBefore, exists_prop]

/-- A line that takes no table covers nothing. -/
theorem coveredBefore_skip {i m v : Nat} (him : i ≤ m) (h : ∀ t, i ≤ t → t < m →
    isTable fromChars lines t → opensBlock fromChars lines t = true → Covered fromChars lines t) :
    CoveredBefore fromChars lines m v ↔ CoveredBefore fromChars lines i v := by
  constructor
  · rintro ⟨t, ht, htable, hopens, hcovered, hin⟩
    by_cases hit : i ≤ t
    · exact absurd (h t hit ht htable hopens) hcovered
    · exact ⟨t, by omega, htable, hopens, hcovered, hin⟩
  · rintro ⟨t, ht, h⟩
    exact ⟨t, by omega, h⟩

/-- The scan from line `i` on opens the annotations no table covers. -/
theorem scanBlocks_covered : ∀ {n i : Nat} {visited : List Nat}, lines.length ≤ i + n →
    (∀ v, i ≤ v → Recognised fromChars lines v →
      (v ∈ visited ↔ CoveredBefore fromChars lines i v)) →
    ∀ k, i ≤ k → opensBlock fromChars lines k = true →
      (k ∈ (scanBlocks fromChars lines n i visited).map Block.opened ↔
        ¬Covered fromChars lines k) := by
  intro n
  induction n with
  | zero =>
    intro i visited hn _ k hk hopens
    have := lt_length_of_recognised (recognised_of_opensBlock hopens)
    omega
  | succ n ih =>
    intro i visited hn hvisited k hk hopens
    have hklen := lt_length_of_recognised (recognised_of_opensBlock hopens)
    have hlater : ∀ {m visited'}, i < m →
        i ∉ (scanBlocks fromChars lines n m visited').map Block.opened := by
      intro m visited' him hmem
      obtain ⟨b, hb, he⟩ := List.mem_map.1 hmem
      have := scanBlocks_ge n m visited' b hb
      omega
    -- a line that opens nothing
    have hskip : (opensBlock fromChars lines i = true → Covered fromChars lines i) →
        (k ∈ (scanBlocks fromChars lines n (i + 1) visited).map Block.opened ↔
          ¬Covered fromChars lines k) := by
      intro hcovered
      by_cases hki : k = i
      · subst hki
        exact iff_of_false (hlater (Nat.lt_succ_self _)) (not_not.2 (hcovered hopens))
      · refine ih (by omega) (fun v hv hrec => ?_) k (by omega) hopens
        rw [hvisited v (by omega) hrec]
        refine (coveredBefore_skip (Nat.le_succ i) fun t hit hti _ hto => ?_).symm
        rw [show t = i by omega] at hto ⊢
        exact hcovered hto
    rw [scanBlocks, if_neg (by omega)]
    by_cases hv : i ∈ visited
    · rw [if_pos hv]
      refine hskip fun hopens => (covered_iff i).2 ?_
      exact (hvisited i (Nat.le_refl i) (recognised_of_opensBlock hopens)).1 hv
    rw [if_neg hv]
    cases hat : annotationAt fromChars lines i with
    | none =>
      refine hskip fun hopens => ?_
      rw [opensBlock, hat] at hopens
      cases hopens
    | some note =>
      dsimp only
      by_cases hcoords : note.coords.isEmpty = true
      · rw [if_pos hcoords]
        refine hskip fun hopens => ?_
        rw [opensBlock_of_coords hat, hcoords] at hopens
        cases hopens
      rw [if_neg hcoords]
      have hfree : ¬Covered fromChars lines i := fun hcovered => hv
        ((hvisited i (Nat.le_refl i) (by rw [Recognised, hat]; rfl)).2 ((covered_iff i).1 hcovered))
      have hopens_i : opensBlock fromChars lines i = true := by
        rw [opensBlock_of_coords hat]
        simpa using hcoords
      by_cases htable : (note.label == ascii "table") = true
      · have his : isTable fromChars lines i := ⟨note, hat, by simpa using htable⟩
        rw [if_pos htable, List.map_cons, List.mem_cons]
        by_cases hki : k = i
        · exact iff_of_true (Or.inl hki) (hki ▸ hfree)
        refine (or_iff_right hki).trans (ih (by omega) (fun v hv hrec => ?_) k (by omega) hopens)
        have hvlen := lt_length_of_recognised hrec
        rw [List.mem_append, hvisited v (by omega) hrec, mem_tableTaken_iff hvlen (by omega)]
        constructor
        · rintro (⟨t, ht, h⟩ | hin)
          · exact ⟨t, by omega, h⟩
          · exact ⟨i, Nat.lt_succ_self i, his, hopens_i, hfree, hin⟩
        · rintro ⟨t, ht, h⟩
          by_cases hti : t = i
          · exact Or.inr (hti ▸ h.2.2.2)
          · exact Or.inl ⟨t, by omega, h⟩
      · rw [if_neg htable, List.map_cons, List.mem_cons]
        obtain ⟨-, hmem, hle, -, hnone⟩ :=
          @textTaken_spec ν fromChars lines visited _ (i + 1) rfl (by omega)
        generalize textTaken fromChars visited (i + 1) (lines.drop (i + 1)) = r at hmem hle hnone
        by_cases hki : k = i
        · exact iff_of_true (Or.inl hki) (hki ▸ hfree)
        have hkr : r.2 ≤ k := by
          by_contra hlt
          exact hnone k (by omega) (by omega) (recognised_of_opensBlock hopens)
        refine (or_iff_right hki).trans (ih (by omega) (fun v hv hrec => ?_) k hkr hopens)
        have hnew : v ∉ r.1 := fun hv' => by
          have := (hmem v hv').2
          omega
        rw [List.mem_append, or_iff_left hnew, hvisited v (by omega) hrec]
        -- no table annotation stands between
        refine (coveredBefore_skip (by omega) fun t hit htr htab _ => ?_).symm
        obtain ⟨note', hat', hlabel⟩ := htab
        by_cases hti : t = i
        · rw [hti, hat, Option.some.injEq] at hat'
          exact absurd (by rw [hat', hlabel]; decide) htable
        · exact absurd (by rw [Recognised, hat']; rfl) (hnone t (by omega) htr)

/-- **An annotation with four coordinates opens a block** exactly when no
table of an earlier block covers its line. -/
theorem opened_iff {k : Nat} (hopens : opensBlock fromChars lines k = true) :
    k ∈ (scanBlocks fromChars lines lines.length 0 []).map Block.opened ↔
      ¬Covered fromChars lines k := by
  refine scanBlocks_covered (by omega) (fun v _ _ => ?_) k (Nat.zero_le k) hopens
  refine iff_of_false (by simp) ?_
  rintro ⟨t, ht, -⟩
  omega

end Covered

/-- **A rewritten annotation opens its block** exactly when the matcher takes
its whitespace and no table covers it. For every content, every annotation in
it that is rewritten and that only whitespace precedes on its line (or another
rewritten annotation right before it), with coordinates below `2^53`: its line
of the rewritten text is recognised with its label and its four coordinates
and opens a block with them, if and only if the whitespace between its
coordinates is blanks and the line does not lie in the table of an earlier
table annotation. -/
theorem rewritten_opens_iff {ν : Type} (fromChars : Bytes → Option (ν × Bytes)) (number : Nat → ν)
    (hfrom : ReadsIntegers fromChars number) (content raw : Bytes) (done rest : List Piece)
    (note : Note)
    (hpieces : pieces (content.length + 1) content = done ++ .note raw note :: rest)
    (hleads : Leads done) (hlt : ∀ n ∈ note.coords, n < 2 ^ 53) :
    (annotationAt fromChars ((normalizeUnlimitedOcr content).splitOn 0x0A)
        ((done.flatMap Piece.out).count 0x0A) = some ⟨note.label, note.coords.map number⟩ ∧
      ∃ b ∈ deepseekBlocks fromChars (normalizeUnlimitedOcr content),
        b.opened = (done.flatMap Piece.out).count 0x0A ∧
        b.note = ⟨note.label, note.coords.map number⟩) ↔
      note.Blanks ∧ ¬Covered fromChars ((normalizeUnlimitedOcr content).splitOn 0x0A)
        ((done.flatMap Piece.out).count 0x0A) := by
  have hmatch := match_rewritten_iff hfrom hpieces hleads hlt
  have hproper : note.Proper :=
    (pieces_raw (Nat.lt_succ_self content.length)).2
      (show Piece.note raw note ∈ _ by simp [hpieces])
  rw [deepseekBlocks]
  generalize (normalizeUnlimitedOcr content).splitOn 0x0A = lines at hmatch ⊢
  generalize (done.flatMap Piece.out).count 0x0A = i at hmatch ⊢
  have hopens : annotationAt fromChars lines i = some ⟨note.label, note.coords.map number⟩ →
      opensBlock fromChars lines i = true := by
    intro hat
    rw [opensBlock, hat]
    simp [Note.coords, hproper.three]
  constructor
  · rintro ⟨hat, b, hb, hopened, -⟩
    refine ⟨hmatch.1 hat, (opened_iff (hopens hat)).1 ?_⟩
    exact List.mem_map.2 ⟨b, hb, hopened⟩
  · rintro ⟨hblanks, hcovered⟩
    have hat := hmatch.2 hblanks
    obtain ⟨b, hb, hopened⟩ := List.mem_map.1 ((opened_iff (hopens hat)).2 hcovered)
    refine ⟨hat, b, hb, hopened, ?_⟩
    have hnote := (scanBlocks_own lines.length 0 [] b hb).note_eq
    rw [hopened, hat, Option.some.injEq] at hnote
    exact hnote.symm

theorem readsIntegers_digits : ReadsIntegers digitsFromChars id := by
  intro digits hne hdigits _
  unfold digitsFromChars
  rw [List.takeWhile_eq_self_iff.2 hdigits, List.dropWhile_eq_nil_iff.2 hdigits]
  split
  · exact absurd rfl hne
  · rfl

/-- An annotation with a blank behind a comma, and one with a tab. -/
def sampleNote (gap : Bytes) : Note :=
  ⟨ascii "text", ascii "1", [⟨[], gap, ascii "2"⟩, ⟨[], [], ascii "3"⟩, ⟨[], [], ascii "4"⟩]⟩

def sampleContent (gap : Bytes) : Bytes :=
  ascii "<|det|>text [1," ++ gap ++ ascii "2,3,4]<|/det|>"

theorem rewritten_opens_blank :
    pieces ((sampleContent [0x20]).length + 1) (sampleContent [0x20]) =
      [.text []] ++ .note (sampleContent [0x20]) (sampleNote [0x20]) :: [.text []] ∧
    ((annotationAt digitsFromChars ((normalizeUnlimitedOcr (sampleContent [0x20])).splitOn 0x0A) 0 =
        some ⟨ascii "text", [1, 2, 3, 4]⟩ ∧
      ∃ b ∈ deepseekBlocks digitsFromChars (normalizeUnlimitedOcr (sampleContent [0x20])),
        b.opened = 0 ∧ b.note = ⟨ascii "text", [1, 2, 3, 4]⟩) ↔
      (sampleNote [0x20]).Blanks ∧
        ¬Covered digitsFromChars
          ((normalizeUnlimitedOcr (sampleContent [0x20])).splitOn 0x0A) 0) := by
  have hpieces : pieces ((sampleContent [0x20]).length + 1) (sampleContent [0x20]) =
      [.text []] ++ .note (sampleContent [0x20]) (sampleNote [0x20]) :: [.text []] := by
        decide
  have hleads : Leads [.text []] := Or.inl (by simp [lastLine, Piece.raw])
  refine ⟨hpieces, ?_⟩
  exact rewritten_opens_iff digitsFromChars id readsIntegers_digits (sampleContent [0x20])
    (sampleContent [0x20]) [.text []] [.text []] (sampleNote [0x20]) hpieces hleads (by decide)

/-- The tab is copied, and the matcher stops at it. -/
theorem rewritten_tab_not_recognised :
    pieces ((sampleContent [0x09]).length + 1) (sampleContent [0x09]) =
      [.text []] ++ .note (sampleContent [0x09]) (sampleNote [0x09]) :: [.text []] ∧
    Leads [.text []] ∧ (∀ n ∈ (sampleNote [0x09]).coords, n < 2 ^ 53) ∧
    annotationAt digitsFromChars ((normalizeUnlimitedOcr (sampleContent [0x09])).splitOn 0x0A) 0 =
      none ∧
    deepseekBlocks digitsFromChars (normalizeUnlimitedOcr (sampleContent [0x09])) = [] := by
  refine ⟨by decide, Or.inl (by simp [lastLine, Piece.raw]), by decide, by decide,
    by decide⟩

end VlmConvert.L3.Deepseek

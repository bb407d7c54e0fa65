import VlmConvert.L2Table.LatexCellRender

/-!
# Reading a LaTeX cell back

`parse_latex_cell` escapes a cell's text, `markdown_inline_html` renders it and
the table reader decodes it. Where the Markdown renderer finds emphasis it
escapes the text a second time; where it finds none, the escaped text is used
as it is. The reader decodes once on either path.

Result: `readCell_iff`, when the text comes back.
-/
namespace VlmConvert.L2.Latex

open Bytes L1

/-! ## Paragraphs -/

/-- A place where leading whitespace goes: the start of the text, or behind
whitespace. -/
def Settled (s : Bytes × Bool) : Prop := s.2 = !s.1.isEmpty

theorem settled_spaces {l : Bytes} {s : Bytes × Bool} (h : ∀ c ∈ l, isSpace c = true)
    (hs : Settled s) :
    l.foldl collapseStep s = s := by
  by_cases hne : l = []
  · rw [hne]
    rfl
  · rw [foldl_spaces hne h, ← hs]

theorem settled_behind {l : Bytes} (hne : l ≠ []) (h : ∀ c ∈ l, isSpace c = true)
    (s : Bytes × Bool) :
    Settled (l.foldl collapseStep s) := by
  rw [foldl_spaces hne h]
  rfl

/-- Rendered paragraphs of given text. -/
structure Renders (html : Bytes) (text : Bytes) (opens : Bool) (paragraphs : List (List Chunk)) :
    Prop where
  html_eq : html = paragraphs.flatMap paragraphHtml
  proper : ∀ chunks ∈ paragraphs, ∀ chunk ∈ chunks, chunk.proper = true
  opens_eq : (paragraphs.any fun chunks => chunks.any Chunk.isOpenTag) = opens
  shown : ∀ s, Settled s → (shownParagraphs paragraphs).foldl collapseStep s =
    text.foldl collapseStep s

theorem kept_blank {part : CellPart} (hproper : part.proper = true) (h : part.isBlank = true) :
    ∀ c ∈ part.kept, isSpace c = true := by
  cases part with
  | plain c =>
    have hkept : (CellPart.plain c).kept = [c] := escaped_plain hproper
    rw [hkept]
    intro b hb
    rw [List.mem_singleton.1 hb]
    exact isSpace_of_isBlank h
  | sign s => cases h
  | mark role c run => cases h

theorem keptParts_blank {parts : List CellPart} (hproper : ∀ part ∈ parts, part.proper = true)
    (h : ∀ part ∈ parts, part.isBlank = true) :
    ∀ c ∈ parts.flatMap CellPart.kept, isSpace c = true := by
  intro c hc
  obtain ⟨part, hpart, hmem⟩ := List.mem_flatMap.1 hc
  exact kept_blank (hproper part hpart) (h part hpart) c hmem

theorem escapedParts_ne_nil {parts : List CellPart} (hproper : ∀ part ∈ parts, part.proper = true)
    (hne : parts ≠ []) : parts.flatMap CellPart.escaped ≠ [] := by
  obtain ⟨part, rest, rfl⟩ := List.exists_cons_of_ne_nil hne
  have hpart := hproper part List.mem_cons_self
  rw [List.flatMap_cons]
  intro hnil
  have hescaped := (List.append_eq_nil_iff.1 hnil).1
  cases part with
  | plain c =>
    rw [escaped_plain hpart] at hescaped
    cases hescaped
  | sign s =>
    have hlast := (isWord_sign s).2.2
    rw [show escapeHtmlByte s.char = [] from (List.flatMap_singleton _ _).symm.trans hescaped]
      at hlast
    cases hlast
  | mark role c run =>
    simp only [CellPart.proper, Bool.and_eq_true, bne_iff_ne] at hpart
    rw [escaped_mark hpart.1, List.replicate_eq_nil_iff] at hescaped
    exact hpart.2 hescaped

/-- One paragraph. -/
theorem renders_emit {parts : List CellPart} (hproper : ∀ part ∈ parts, part.proper = true)
    (hplace : place [] 0x20 parts = some []) : ∃ paragraphs,
    Renders (emitParagraph (parts.flatMap CellPart.escaped)) (parts.flatMap CellPart.kept ++ [0x0A])
      (parts.any CellPart.isOpener) paragraphs := by
  have hnewline : ∀ c ∈ [(0x0A : UInt8)], isSpace c = true := by simp [isSpace]
  have hblank : ∀ part : CellPart, part.isBlank = true → part.isOpener = false := by
    intro part h
    cases part with
    | plain c => rfl
    | sign s => rfl
    | mark role c run => cases h
  have htrim := trim_escapedParts hproper
  have hopener := @any_trimParts parts CellPart.isOpener hblank
  obtain ⟨lead, tail, hsplit, hlead, htail⟩ := trimmed_split parts CellPart.isBlank
  have hmem : ∀ part, part ∈ lead ∨ part ∈ tail → part ∈ parts := by
    intro part h
    rw [hsplit]
    rcases h with h | h
    · simp [h]
    · simp [h]
  have hleadkept := keptParts_blank (fun part h => hproper part (hmem part (Or.inl h))) hlead
  have htailkept := keptParts_blank (fun part h => hproper part (hmem part (Or.inr h))) htail
  have hkept : parts.flatMap CellPart.kept = lead.flatMap CellPart.kept ++
      (trimParts parts).flatMap CellPart.kept ++ tail.flatMap CellPart.kept := by
    conv_lhs => rw [hsplit]
    rw [List.flatMap_append, List.flatMap_append]
    rfl
  have hends : ∀ s, Settled s → (parts.flatMap CellPart.kept ++ [0x0A]).foldl collapseStep s =
      ((trimParts parts).flatMap CellPart.kept ++ [0x0A, 0x0A]).foldl collapseStep s := by
    intro s hs
    have hbehind : SameWords (tail.flatMap CellPart.kept ++ [0x0A]) [0x0A, 0x0A] := by
      refine sameWords_spaces (by simp) (by simp) ?_ (by simp [isSpace])
      intro c hc
      rcases List.mem_append.1 hc with hc | hc
      · exact htailkept c hc
      · exact hnewline c hc
    rw [hkept, List.append_assoc, List.append_assoc, List.foldl_append, settled_spaces hleadkept hs,
      List.foldl_append, hbehind, ← List.foldl_append]
  unfold emitParagraph
  rw [htrim]
  by_cases hnil : trimParts parts = []
  · refine ⟨[], ?_, by simp, ?_, fun s hs => ?_⟩
    · rw [hnil]
      rfl
    · rw [← hopener, hnil]
      rfl
    · rw [hends s hs, hnil]
      exact (settled_spaces (by simp [isSpace]) hs).symm
  · have htrimmed : ∀ part ∈ trimParts parts, part.proper = true :=
      fun part h => hproper part (mem_trimParts h)
    have hne : ((trimParts parts).flatMap CellPart.escaped).isEmpty = false := by
      rw [List.isEmpty_eq_false_iff]
      exact escapedParts_ne_nil htrimmed hnil
    have hplaced : place [] 0x20 (trimParts parts) = some [] :=
      (place_trimParts hproper).trans hplace
    obtain ⟨hchunks, hopen⟩ := @proper_stretches _ [] false 0x20 htrimmed (by simp)
    have hwords := @sameWords_stretches _ [] false 0x20 htrimmed (by simp)
    refine ⟨[paragraphChunks (trimParts parts)], ?_, ?_, ?_, fun s hs => ?_⟩
    · rw [hne, renderParagraph_parts htrimmed hplaced]
      simp [paragraphHtml]
    · intro chunks hmem
      rw [List.mem_singleton.1 hmem]
      exact hchunks
    · rw [List.any_cons, List.any_nil, Bool.or_false, ← hopener]
      exact hopen
    · rw [hends s hs, shownParagraphs, List.flatMap_singleton, List.foldl_append, List.foldl_append]
      exact congrArg (List.foldl collapseStep · [0x0A, 0x0A]) (hwords s)

theorem Renders.append {html html' text text' : Bytes} {opens opens' : Bool}
    {ps ps' : List (List Chunk)} (h : Renders html (text ++ [0x0A]) opens ps)
    (h' : Renders html' text' opens' ps') :
    Renders (html ++ html') (text ++ [0x0A] ++ text') (opens || opens') (ps ++ ps') := by
  have hnewline : ∀ c ∈ [(0x0A : UInt8)], isSpace c = true := by simp [isSpace]
  refine ⟨?_, ?_, ?_, fun s hs => ?_⟩
  · rw [h.html_eq, h'.html_eq, List.flatMap_append]
  · intro chunks hmem
    rcases List.mem_append.1 hmem with hmem | hmem
    · exact h.proper chunks hmem
    · exact h'.proper chunks hmem
  · rw [List.any_append, h.opens_eq, h'.opens_eq]
  · have hbehind : Settled ((text ++ [0x0A]).foldl collapseStep s) := by
      rw [List.foldl_append]
      exact settled_behind (by simp) hnewline _
    rw [shownParagraphs, List.flatMap_append, List.foldl_append, List.foldl_append]
    have hfirst := h.shown s hs
    rw [shownParagraphs] at hfirst
    rw [hfirst]
    exact h'.shown _ hbehind

theorem Renders.congr {html text text' : Bytes} {opens : Bool} {ps : List (List Chunk)}
    (h : Renders html text opens ps)
    (htext : ∀ s, Settled s → text.foldl collapseStep s = text'.foldl collapseStep s) :
    Renders html text' opens ps :=
  ⟨h.html_eq, h.proper, h.opens_eq, fun s hs => (h.shown s hs).trans (htext s hs)⟩

theorem isEmpty_escapedParts {parts : List CellPart}
    (hproper : ∀ part ∈ parts, part.proper = true) :
    (parts.flatMap CellPart.escaped).isEmpty = parts.isEmpty := by
  cases parts with
  | nil => rfl
  | cons part rest =>
    rw [List.isEmpty_cons, List.isEmpty_eq_false_iff]
    exact escapedParts_ne_nil hproper (List.cons_ne_nil _ _)

/-- A line that the renderer takes for blank. -/
theorem isEmpty_trim {line : List CellPart} (hproper : ∀ part ∈ line, part.proper = true) :
    (trim (line.flatMap CellPart.escaped)).isEmpty = line.all CellPart.isBlank := by
  rw [trim_escapedParts hproper, isEmpty_escapedParts fun part h => hproper part (mem_trimParts h),
    Bool.eq_iff_iff, List.isEmpty_iff]
  exact trimParts_eq_nil

/-- **The paragraphs of a cell**, behind the lines of the first. -/
theorem renders_lines :
    ∀ {lines : List (List CellPart)} {paragraph : List CellPart} {open_ : List (UInt8 × Nat)},
    (∀ line ∈ lines, ∀ part ∈ line, part.proper = true) → (∀ part ∈ paragraph, part.proper = true) →
    place [] 0x20 paragraph = some open_ → placeLines open_ lines = some [] → ∃ ps,
    Renders (renderLines (paragraph.flatMap CellPart.escaped)
      (lines.map fun line => line.flatMap CellPart.escaped))
      (paragraph.flatMap CellPart.kept ++ [0x0A] ++ lines.flatMap fun line =>
        line.flatMap CellPart.kept ++ [0x0A])
      (paragraph.any CellPart.isOpener || lines.any fun line => line.any CellPart.isOpener) ps := by
  intro lines
  induction lines with
  | nil =>
    intro paragraph open_ _ hproper hplace hlines
    rw [Option.some.inj hlines] at hplace
    obtain ⟨ps, h⟩ := renders_emit hproper hplace
    refine ⟨ps, ?_⟩
    rw [List.flatMap_nil, List.append_nil, List.any_nil, Bool.or_false]
    exact h
  | cons line lines ih =>
    intro paragraph open_ hall hproper hplace hlines
    have hline := hall line List.mem_cons_self
    have hrest := fun l hl => hall l (List.mem_cons_of_mem line hl)
    rw [List.map_cons, renderLines, isEmpty_trim hline, List.flatMap_cons, List.any_cons]
    rw [placeLines] at hlines
    by_cases hblank : line.all CellPart.isBlank = true
    · rw [if_pos hblank] at hlines ⊢
      split at hlines
      · rename_i hempty
        rw [List.isEmpty_iff.1 hempty] at hplace
        have hspaces := keptParts_blank hline (List.all_eq_true.1 hblank)
        have hnone : line.any CellPart.isOpener = false := by
          rw [List.any_eq_false]
          intro part hpart
          have := List.all_eq_true.1 hblank part hpart
          cases part with
          | plain c => exact Bool.false_ne_true
          | sign s => cases this
          | mark role c run => cases this
        obtain ⟨ps, hfirst⟩ := renders_emit hproper hplace
        obtain ⟨ps', hlast⟩ := @ih [] _ hrest nofun rfl hlines
        refine ⟨ps ++ ps', ?_⟩
        rw [hnone, Bool.false_or]
        refine (hfirst.append hlast).congr fun s _ => ?_
        have hsame : SameWords [0x0A] (line.flatMap CellPart.kept ++ [0x0A]) := by
          refine sameWords_spaces (by simp) (by simp) (by simp [isSpace]) ?_
          intro c hc
          rcases List.mem_append.1 hc with hc | hc
          · exact hspaces c hc
          · rw [List.mem_singleton.1 hc]
            rfl
        exact (SameWords.rfl.append (hsame.append SameWords.rfl)) s
      · cases hlines
    · rw [if_neg hblank] at hlines ⊢
      obtain ⟨next, hnext, hmore⟩ := Option.bind_eq_some_iff.1 hlines
      cases paragraph with
      | nil =>
        cases hplace
        obtain ⟨ps, h⟩ := ih hrest hline hnext hmore
        refine ⟨ps, h.congr fun s hs => ?_⟩
        rw [List.flatMap_nil, List.nil_append, List.singleton_append, List.foldl_cons]
        have hskip : collapseStep s 0x0A = s := settled_spaces (l := [0x0A]) (by simp [isSpace]) hs
        rw [hskip]
      | cons part paragraph =>
        have hlonger : ∀ p ∈ part :: paragraph ++ .plain 0x0A :: line, p.proper = true := by
          intro p hp
          rcases List.mem_append.1 hp with hp | hp
          · exact hproper p hp
          · rcases List.mem_cons.1 hp with rfl | hp
            · rfl
            · exact hline p hp
        have hplaced : place [] 0x20 (part :: paragraph ++ .plain 0x0A :: line) = some next := by
          rw [place_append_blank rfl line hproper, hplace]
          exact (place_alike hline (alike_spaces rfl rfl)).trans hnext
        obtain ⟨ps, h⟩ := ih hrest hlonger hplaced hmore
        refine ⟨ps, ?_⟩
        have hbytes : (part :: paragraph ++ CellPart.plain 0x0A :: line).flatMap CellPart.escaped =
            (part :: paragraph).flatMap CellPart.escaped ++
              0x0A :: line.flatMap CellPart.escaped := by
          rw [List.flatMap_append, List.flatMap_cons (x := CellPart.plain 0x0A)]
          rfl
        have hkept : (part :: paragraph ++ CellPart.plain 0x0A :: line).flatMap CellPart.kept =
            (part :: paragraph).flatMap CellPart.kept ++ 0x0A :: line.flatMap CellPart.kept := by
          rw [List.flatMap_append, List.flatMap_cons (x := CellPart.plain 0x0A)]
          rfl
        have hopens : (part :: paragraph ++ CellPart.plain 0x0A :: line).any CellPart.isOpener =
            ((part :: paragraph).any CellPart.isOpener || line.any CellPart.isOpener) := by
          rw [List.any_append, List.any_cons (a := CellPart.plain 0x0A)]
          rfl
        rw [hbytes, hkept, hopens, Bool.or_assoc] at h
        rw [isEmpty_escapedParts hproper]
        simpa using h

/-! ## The ends of a cell -/

theorem emitParagraph_trim {p p' : Bytes} (h : trim p = trim p') :
    emitParagraph p = emitParagraph p' := by
  rw [emitParagraph, emitParagraph, h]

/-- A blank in front of a paragraph. -/
theorem renderLines_lead {b : UInt8} (h : isBlank b = true) :
    ∀ {lines : List Bytes} {paragraph : Bytes},
    paragraph ≠ [] → renderLines (b :: paragraph) lines = renderLines paragraph lines := by
  intro lines
  induction lines with
  | nil => intro paragraph _; exact emitParagraph_trim (trim_cons h paragraph)
  | cons line lines ih =>
    intro paragraph hne
    have hempty : paragraph.isEmpty = false := List.isEmpty_eq_false_iff.2 hne
    rw [renderLines, renderLines, emitParagraph_trim (trim_cons h paragraph), hempty]
    split
    · rfl
    · exact ih (by simp)

theorem splitOn_cons (b : UInt8) (l : Bytes) : (b :: l).splitOn 0x0A =
    if b == 0x0A then [] :: l.splitOn 0x0A else (l.splitOn 0x0A).modifyHead (b :: ·) :=
  List.splitOnP_cons_eq_if_modifyHead b l

theorem renderLines_cons {b : UInt8} (h : isBlank b = true) (l : Bytes) :
    renderLines [] ((b :: l).splitOn 0x0A) = renderLines [] (l.splitOn 0x0A) := by
  rw [splitOn_cons]
  split
  · rfl
  · obtain ⟨line, lines, hlines⟩ :=
      List.exists_cons_of_ne_nil (List.splitOn_ne_nil (0x0A : UInt8) l)
    rw [hlines, List.modifyHead_cons, renderLines, renderLines, trim_cons h]
    split
    · rfl
    · rename_i hline
      have hne : line ≠ [] := by
        rintro rfl
        exact hline rfl
      exact renderLines_lead h hne

/-- A blank behind a text; `pre` is the start of its first line. -/
theorem renderLines_concat {b : UInt8} (h : isBlank b = true) : ∀ (l pre paragraph : Bytes),
    renderLines paragraph (((l ++ [b]).splitOn 0x0A).modifyHead (pre ++ ·)) =
      renderLines paragraph ((l.splitOn 0x0A).modifyHead (pre ++ ·)) := by
  intro l
  induction l with
  | nil =>
    intro pre paragraph
    rw [List.nil_append, splitOn_cons, List.splitOn_nil]
    split
    · simp only [List.modifyHead_cons, List.append_nil, renderLines]
      split
      · rfl
      · exact List.append_nil _
    · simp only [List.modifyHead_cons, List.append_nil, renderLines, trim_concat h]
      split
      · rfl
      · split
        · exact emitParagraph_trim (trim_concat h pre)
        · have happend : paragraph ++ 0x0A :: (pre ++ [b]) = (paragraph ++ 0x0A :: pre) ++ [b] := by
            simp
          rw [happend]
          exact emitParagraph_trim (trim_concat h _)
  | cons c l ih =>
    intro pre paragraph
    have hstart : ∀ x : Bytes, (x.splitOn 0x0A).modifyHead (([] : Bytes) ++ ·) =
      x.splitOn 0x0A := by
      intro x
      cases x.splitOn 0x0A <;> rfl
    rw [List.cons_append, splitOn_cons, splitOn_cons]
    split
    · have hrest : ∀ paragraph, renderLines paragraph ((l ++ [b]).splitOn 0x0A) =
          renderLines paragraph (l.splitOn 0x0A) := by
        intro paragraph
        have hpre := ih [] paragraph
        rwa [hstart, hstart] at hpre
      simp only [List.modifyHead_cons, renderLines, hrest]
    · have hmerge : ∀ x : List Bytes, (x.modifyHead (c :: ·)).modifyHead (pre ++ ·) =
          x.modifyHead ((pre ++ [c]) ++ ·) := by
        intro x
        cases x with
        | nil => rfl
        | cons line lines => simp
      rw [hmerge, hmerge]
      exact ih (pre ++ [c]) paragraph

/-- The renderer trims a text by itself. -/
theorem renderLines_trim (l : Bytes) :
    renderLines [] ((trim l).splitOn 0x0A) = renderLines [] (l.splitOn 0x0A) := by
  obtain ⟨lead, tail, hsplit, hlead, htail⟩ := trimmed_split l isBlank
  have hfront : ∀ lead : Bytes, (∀ c ∈ lead, isBlank c = true) → ∀ x : Bytes,
      renderLines [] ((lead ++ x).splitOn 0x0A) = renderLines [] (x.splitOn 0x0A) := by
    intro lead
    induction lead with
    | nil => intro _ x; rfl
    | cons b lead ih =>
      intro hblank x
      rw [List.cons_append, renderLines_cons (hblank b List.mem_cons_self)]
      exact ih (fun c hc => hblank c (List.mem_cons_of_mem b hc)) x
  have hback : ∀ tail : Bytes, (∀ c ∈ tail, isBlank c = true) → ∀ x : Bytes,
      renderLines [] ((x ++ tail).splitOn 0x0A) = renderLines [] (x.splitOn 0x0A) := by
    intro tail
    induction tail with
    | nil => intro _ x; rw [List.append_nil]
    | cons b tail ih =>
      intro hblank x
      have hconcat := renderLines_concat (hblank b List.mem_cons_self) x [] []
      have hstart : ∀ y : Bytes, (y.splitOn 0x0A).modifyHead (([] : Bytes) ++ ·) =
        y.splitOn 0x0A := by
        intro y
        cases y.splitOn 0x0A <;> rfl
      rw [hstart, hstart] at hconcat
      rw [← hconcat, ← ih (fun c hc => hblank c (List.mem_cons_of_mem b hc)) (x ++ [b])]
      simp
  conv_rhs => rw [hsplit]
  rw [hback tail htail, hfront lead hlead]
  rfl

/-! ## The lines of a cell -/

theorem flatMap_joinParts (f : CellPart → Bytes) (hf : f (.plain 0x0A) = [0x0A]) :
    ∀ {lines : List (List CellPart)}, lines ≠ [] →
    (joinParts lines).flatMap f = [0x0A].intercalate (lines.map fun line => line.flatMap f) ∧
      (joinParts lines).flatMap f ++ [0x0A] =
        lines.flatMap fun line => line.flatMap f ++ [0x0A] := by
  intro lines
  induction lines with
  | nil => intro h; exact absurd rfl h
  | cons line lines ih =>
    intro _
    cases lines with
    | nil => simp [joinParts, List.intercalate]
    | cons next lines =>
      obtain ⟨hjoin, hflat⟩ := ih (List.cons_ne_nil _ _)
      have hcons : (joinParts (line :: next :: lines)).flatMap f =
          line.flatMap f ++ 0x0A :: (joinParts (next :: lines)).flatMap f := by
        rw [show joinParts (line :: next :: lines) =
          line ++ .plain 0x0A :: joinParts (next :: lines) from rfl,
          List.flatMap_append, List.flatMap_cons, hf]
        rfl
      refine ⟨?_, ?_⟩
      · rw [hcons, hjoin]
        simp [List.intercalate]
      · rw [hcons, List.flatMap_cons, ← hflat]
        simp

theorem any_joinParts (f : CellPart → Bool) (hf : f (.plain 0x0A) = false) :
    ∀ lines : List (List CellPart), (joinParts lines).any f = lines.any fun line => line.any f := by
  intro lines
  induction lines with
  | nil => rfl
  | cons line lines ih =>
    cases lines with
    | nil => simp [joinParts]
    | cons next lines =>
      rw [show joinParts (line :: next :: lines) = line ++ .plain 0x0A :: joinParts (next :: lines)
        from rfl, List.any_append, List.any_cons, hf, Bool.false_or, ih]
      rfl

theorem newline_free {part : CellPart} (hproper : part.proper = true) (hne : part ≠ .plain 0x0A) :
    0x0A ∉ part.escaped := by
  cases part with
  | plain c =>
    rw [escaped_plain hproper, List.mem_singleton]
    rintro rfl
    exact hne rfl
  | sign s =>
    have hescaped : (CellPart.sign s).escaped = escapeHtmlByte s.char := List.flatMap_singleton _ _
    rw [hescaped]
    intro hmem
    have hword := (isWord_sign s).1 0x0A hmem
    cases hword
  | mark role c run =>
    simp only [CellPart.proper, Bool.and_eq_true] at hproper
    rw [escaped_mark hproper.1, List.mem_replicate]
    rintro ⟨-, rfl⟩
    cases hproper.1

namespace CellText

variable (t : CellText)

theorem splitOn_escaped : (t.parts.flatMap CellPart.escaped).splitOn 0x0A =
    t.lines.map fun line => line.flatMap CellPart.escaped := by
  rw [parts, (flatMap_joinParts CellPart.escaped rfl t.nonempty).1, List.splitOn_intercalate]
  · intro l hl
    obtain ⟨line, hline, rfl⟩ := List.mem_map.1 hl
    rw [List.mem_flatMap]
    rintro ⟨part, hpart, hmem⟩
    obtain ⟨hproper, hne⟩ := t.proper line hline part hpart
    exact newline_free hproper hne hmem
  · simpa using t.nonempty

/-- The text without emphasis markers, still escaped. -/
def kept : Bytes := t.parts.flatMap CellPart.kept

/-- The rendered paragraphs of the cell. -/
theorem renders :
    ∃ ps, Renders (renderLines [] (((trim t.resolved).flatMap escapeHtmlByte).splitOn 0x0A))
    (0x0A :: (t.kept ++ [0x0A])) t.emphasised ps := by
  have hescaped : (trim t.resolved).flatMap escapeHtmlByte =
    trim (t.parts.flatMap CellPart.escaped) := by
    rw [← trim_escaped, resolved, List.flatMap_assoc]
    rfl
  obtain ⟨ps, h⟩ := @renders_lines t.lines [] _
    (fun line hline part hpart => (t.proper line hline part hpart).1) (by simp) rfl t.placed
  have hkept := (flatMap_joinParts CellPart.kept rfl t.nonempty).2
  have hopens := any_joinParts CellPart.isOpener rfl t.lines
  refine ⟨ps, ?_⟩
  rw [hescaped, renderLines_trim, t.splitOn_escaped, emphasised, parts, hopens, kept, parts, hkept]
  exact h

theorem mem_trim_resolved {c : UInt8} (hc : c ∈ t.resolved) (hblank : isBlank c = false) :
    c ∈ trim t.resolved := by
  obtain ⟨lead, tail, hsplit, hlead, htail⟩ := trimmed_split t.resolved isBlank
  rw [hsplit] at hc
  have hnot : ∀ l : Bytes, (∀ x ∈ l, isBlank x = true) → c ∉ l := by
    intro l hl hmem
    rw [hl c hmem] at hblank
    cases hblank
  rcases List.mem_append.1 hc with hc | hc
  · rcases List.mem_append.1 hc with hc | hc
    · exact absurd hc (hnot lead hlead)
    · exact hc
  · exact absurd hc (hnot tail htail)

/-- With emphasis the renderer is entered. -/
theorem has_mark (h : t.emphasised = true) :
    ((trim t.resolved).flatMap escapeHtmlByte).contains 0x2A = true ∨
      ((trim t.resolved).flatMap escapeHtmlByte).contains 0x5F = true := by
  obtain ⟨part, hpart, hopener⟩ := List.any_eq_true.1 h
  cases part with
  | plain c => cases hopener
  | sign s => cases hopener
  | mark role c run =>
    have hproper := t.proper_parts _ hpart
    simp only [CellPart.proper, Bool.and_eq_true, bne_iff_ne] at hproper
    have hmem : c ∈ t.resolved :=
      List.mem_flatMap.2 ⟨_, hpart, List.mem_replicate.2 ⟨hproper.2, rfl⟩⟩
    have hkept : ∀ d : UInt8, c = d → isBlank d = false → escapeHtmlByte d = [d] →
        ((trim t.resolved).flatMap escapeHtmlByte).contains d = true := by
      rintro d rfl hblank hself
      rw [List.contains_iff_mem, List.mem_flatMap]
      exact ⟨c, t.mem_trim_resolved hmem hblank, by rw [hself]; exact List.mem_singleton_self c⟩
    rcases isMark_eq hproper.1 with hc | hc
    · exact Or.inl (hkept 0x2A hc rfl rfl)
    · exact Or.inr (hkept 0x5F hc rfl rfl)

/-- A cell with emphasis reads back escaped. -/
theorem readCell_emphasised (h : t.emphasised = true) :
    readCell t.source = collapseWhitespace t.kept := by
  obtain ⟨ps, hr⟩ := t.renders
  have hfound := foundEmphasis_eq ps
  rw [hr.opens_eq, h] at hfound
  have hne : ps ≠ [] := by
    rintro rfl
    cases hfound
  have hhtml : markdownInlineHtml ((trim t.resolved).flatMap escapeHtmlByte) =
    paragraphsInline ps := by
    rw [markdownInlineHtml_eq, hr.html_eq, hfound, if_neg, if_pos rfl, trim_paragraphs hne,
      breakLines_paragraphs hr.proper]
    rcases t.has_mark h with hm | hm
    · rw [hm]
      exact Bool.false_ne_true
    · rw [hm, Bool.not_true, Bool.and_false]
      exact Bool.false_ne_true
  have hshown : collapseWhitespace (shownParagraphs ps) =
    collapseWhitespace (0x0A :: (t.kept ++ [0x0A])) :=
    congrArg Prod.fst (hr.shown ([], false) rfl)
  have hnewline : ∀ c ∈ [(0x0A : UInt8)], isSpace c = true := by simp [isSpace]
  rw [shownParagraphs_eq hne, collapse_append_spaces _ hnewline] at hshown
  have hends := collapse_spaces_append (t.kept ++ [0x0A]) hnewline
  rw [collapse_append_spaces _ hnewline] at hends
  rw [readCell, t.parseLatexCell_text, hhtml, parseMarkup_paragraphs, hshown]
  exact hends

/-- A cell without emphasis is not rendered. -/
theorem readCell_plain (h : t.emphasised = false) :
    readCell t.source = collapseWhitespace t.resolved := by
  obtain ⟨ps, hr⟩ := t.renders
  have hfound := foundEmphasis_eq ps
  rw [hr.opens_eq, h] at hfound
  have htame : ∀ c ∈ (trim t.resolved).flatMap escapeHtmlByte, isTame c = true := by
    intro c hc
    obtain ⟨d, hd, hmem⟩ := List.mem_flatMap.1 hc
    have hd' : d ∈ t.resolved :=
      (List.dropWhile_suffix isBlank).subset ((List.rdropWhile_prefix isBlank _).subset hd)
    obtain ⟨part, hpart, hpd⟩ := List.mem_flatMap.1 hd'
    exact tame_escapeHtmlByte (resolved_tame (t.proper_parts part hpart) d hpd) c hmem
  have hhtml : markdownInlineHtml ((trim t.resolved).flatMap escapeHtmlByte) =
      (trim t.resolved).flatMap escapeHtmlByte := by
    rw [markdownInlineHtml_eq, hr.html_eq, hfound]
    split
    · rfl
    · exact unescapeFrom_tame _ htame
  rw [readCell, t.parseLatexCell_text, hhtml, read_escaped]

end CellText

/-! ## Without openers there are no closers -/

theorem place_no_opener : ∀ {parts : List CellPart} {before : UInt8} {out : List (UInt8 × Nat)},
    parts.any CellPart.isOpener = false → place [] before parts = some out →
    out = [] ∧ ∀ part ∈ parts, part.resolved = part.meaning := by
  intro parts
  induction parts with
  | nil =>
    intro before out _ h
    exact ⟨(Option.some.inj h).symm, nofun⟩
  | cons part rest ih =>
    intro before out hopener hplace
    rw [List.any_cons, Bool.or_eq_false_iff] at hopener
    obtain ⟨next, hfirst, hnext⟩ := place_cons hplace
    have hpart : next = [] ∧ part.resolved = part.meaning := by
      cases part with
      | plain c => exact ⟨(Option.some.inj hfirst).symm, rfl⟩
      | sign s => exact ⟨(Option.some.inj hfirst).symm, rfl⟩
      | mark role c run =>
        rcases place_mark_cases hfirst with ⟨rfl, -, -, rfl⟩ | ⟨rfl, -, -, -⟩ | ⟨-, -, hempty⟩
        · exact ⟨rfl, rfl⟩
        · cases hopener.1
        · cases hempty
    rw [hpart.1] at hnext
    obtain ⟨hout, hall⟩ := ih hopener.2 hnext
    refine ⟨hout, fun p hp => ?_⟩
    rcases List.mem_cons.1 hp with rfl | hp
    · exact hpart.2
    · exact hall p hp

theorem placeLines_no_opener : ∀ {lines : List (List CellPart)} {out : List (UInt8 × Nat)},
    (lines.any fun line => line.any CellPart.isOpener) = false → placeLines [] lines = some out →
    ∀ line ∈ lines, ∀ part ∈ line, part.resolved = part.meaning := by
  intro lines
  induction lines with
  | nil => intro out _ _; exact nofun
  | cons line lines ih =>
    intro out hopener hplace
    rw [List.any_cons, Bool.or_eq_false_iff] at hopener
    rw [placeLines] at hplace
    split at hplace
    · rename_i hblank
      intro l hl
      rcases List.mem_cons.1 hl with rfl | hl
      · intro part hpart
        have hb := List.all_eq_true.1 hblank part hpart
        cases part with
        | plain c => rfl
        | sign s => cases hb
        | mark role c run => cases hb
      · exact ih hopener.2 hplace l hl
    · obtain ⟨next, hnext, hmore⟩ := Option.bind_eq_some_iff.1 hplace
      obtain ⟨rfl, hall⟩ := place_no_opener hopener.1 hnext
      intro l hl
      rcases List.mem_cons.1 hl with rfl | hl
      · exact hall
      · exact ih hopener.2 hmore l hl

theorem CellText.resolved_eq_meaning (t : CellText) (h : t.emphasised = false) :
    t.resolved = t.meaning := by
  rw [emphasised, parts, any_joinParts CellPart.isOpener rfl] at h
  refine List.flatMap_congr fun part hpart => ?_
  rcases mem_joinParts hpart with rfl | ⟨line, hline, hmem⟩
  · rfl
  · exact placeLines_no_opener h t.placed line hline part hmem

/-! ## What a second escaping shows -/

theorem kept_eq {part : CellPart} (hproper : part.proper = true) (h : part.isSign = false) :
    part.kept = part.meaning := by
  cases part with
  | plain c => exact escaped_plain hproper
  | sign s => cases h
  | mark role c run =>
    simp only [CellPart.proper, Bool.and_eq_true] at hproper
    cases role with
    | loose => exact escaped_mark hproper.1 .loose run
    | opens => rfl
    | closes => rfl

/-- An entity is longer than its sign. -/
theorem kept_longer {part : CellPart} (hproper : part.proper = true) :
    (visible part.meaning).length ≤ (visible part.kept).length ∧
      (part.isSign = true → (visible part.meaning).length < (visible part.kept).length) := by
  cases hs : part.isSign with
  | false =>
    rw [kept_eq hproper hs]
    exact ⟨Nat.le_refl _, nofun⟩
  | true =>
    cases part with
    | plain c => cases hs
    | mark role c run => cases hs
    | sign s =>
      have hkept : (CellPart.sign s).kept = escapeHtmlByte s.char := List.flatMap_singleton _ _
      have hlonger : (visible [s.char]).length < (visible (escapeHtmlByte s.char)).length := by
        rcases s.char_eq with h | h | h
        all_goals
          rw [h]
          decide
      rw [hkept]
      exact ⟨Nat.le_of_lt hlonger, fun _ => hlonger⟩

theorem keptParts_longer : ∀ {parts : List CellPart}, (∀ part ∈ parts, part.proper = true) →
    (visible (parts.flatMap CellPart.meaning)).length ≤
      (visible (parts.flatMap CellPart.kept)).length ∧
      (parts.any CellPart.isSign = true →
        (visible (parts.flatMap CellPart.meaning)).length <
          (visible (parts.flatMap CellPart.kept)).length) := by
  intro parts
  induction parts with
  | nil => intro _; exact ⟨Nat.le_refl _, nofun⟩
  | cons part rest ih =>
    intro hproper
    obtain ⟨hle, hlt⟩ := ih fun p hp => hproper p (List.mem_cons_of_mem part hp)
    obtain ⟨hle', hlt'⟩ := kept_longer (hproper part List.mem_cons_self)
    simp only [List.flatMap_cons, visible_append, List.length_append, List.any_cons,
      Bool.or_eq_true]
    refine ⟨by omega, fun h => ?_⟩
    rcases h with h | h
    · have := hlt' h
      omega
    · have := hlt h
      omega

/-- **A cell's text comes back** exactly where it has no emphasis or none of
'<', '>' and '&': with both, the entities are escaped again. -/
theorem readCell_iff (t : CellText) :
    readCell t.source = collapseWhitespace t.meaning ↔
      (t.emphasised = false ∨ t.signed = false) := by
  cases hemphasis : t.emphasised with
  | false =>
    rw [t.readCell_plain hemphasis, t.resolved_eq_meaning hemphasis]
    exact iff_of_true rfl (Or.inl rfl)
  | true =>
    rw [t.readCell_emphasised hemphasis]
    cases hsigned : t.signed with
    | false =>
      refine iff_of_true (congrArg collapseWhitespace ?_) (Or.inr rfl)
      refine List.flatMap_congr fun part hpart => kept_eq (t.proper_parts part hpart) ?_
      simpa using List.any_eq_false.1 hsigned part hpart
    | true =>
      refine iff_of_false (fun heq => ?_) (by simp)
      have hlonger := (keptParts_longer t.proper_parts).2 hsigned
      have hvisible := congrArg (fun l => (visible l).length) heq
      simp only [visible_collapse] at hvisible
      exact Nat.ne_of_gt hlonger hvisible

/-- In `a < *b*` the sign comes back as its entity. -/
theorem readCell_escapes_twice : ∃ t : CellText, t.source = ascii "a < *b*" ∧
    t.meaning = ascii "a < b" ∧ readCell t.source = ascii "a &lt; b" ∧
    readCell t.source ≠ collapseWhitespace t.meaning := by
  refine ⟨⟨[[.plain 0x61, .plain 0x20, .sign .less, .plain 0x20, .mark .opens 0x2A 1, .plain 0x62,
    .mark .closes 0x2A 1]], by decide, by decide, by decide, by decide⟩, ?_⟩
  decide +kernel

end VlmConvert.L2.Latex

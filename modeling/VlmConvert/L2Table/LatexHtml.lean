import VlmConvert.L1Text.InlineContent
import VlmConvert.L2Table.LatexLayout

/-!
# The HTML of a LaTeX table

A cell's text passes three layers: `escape_cell_markup` keeps inline tags as
they are, Markdown keeps tags and `<code>` elements, and the parser closes
elements by itself. Each layer keeps the text within the inline tags
(`Whole`, `Content`), so the cell's element is closed by its own close tag.

Result: `latex_structure`, the element tree of every converted table.
-/
namespace VlmConvert.L2.Latex

open Bytes L1

/-! ## Escaped cells are whole -/

theorem tagRun_alpha : ∀ (name : Bytes) (n : Bytes), (∀ b ∈ name, isAlpha b = true) →
    tagRun (.name n) name = some (.name (n ++ name)) := by
  intro name
  induction name with
  | nil => intro n _; rw [List.append_nil]; rfl
  | cons b name ih =>
    intro n h
    rw [tagRun, tagStep, if_pos (h b List.mem_cons_self), Option.bind_some,
      ih _ fun b' hb' => h b' (List.mem_cons_of_mem b hb')]
    simp

theorem tagRun_spaces : ∀ (spaces : Bytes), (∀ b ∈ spaces, isSpace b = true) →
    tagRun .spaces spaces = some .spaces := by
  intro spaces
  induction spaces with
  | nil => intro _; rfl
  | cons b spaces ih =>
    intro h
    rw [tagRun, tagStep, tagEnd, if_pos (h b List.mem_cons_self), Option.bind_some]
    exact ih fun b' hb' => h b' (List.mem_cons_of_mem b hb')

/-- A tag without a line break in it is whole. -/
theorem whole_tag (t : InlineTag) (h : t.tail ≠ ascii "<br>") : Whole (0x3C :: t.body) := by
  obtain ⟨c, name, hname⟩ := List.exists_cons_of_ne_nil t.name_ne
  have hc : isAlpha c = true := t.alpha c (by rw [hname]; exact List.mem_cons_self)
  have hne := isAlpha_ne hc
  have hrun : ∀ s, (s = .opened ∨ s = .slashed) → tagRun s t.name = some (.name t.name) := by
    rintro s hs
    have hstep : tagStep s c = some (.name [c]) := by
      rcases hs with rfl | rfl
      · simp [tagStep, hc, hne.2.2.1]
      · simp [tagStep, hc]
    rw [hname, tagRun, hstep, Option.bind_some, tagRun_alpha _ _ fun b hb =>
      t.alpha b (by rw [hname]; exact List.mem_cons_of_mem c hb)]
    rfl
  have hfront : tagRun .opened (slashBytes t.slash ++ t.name) = some (.name t.name) := by
    rw [tagRun_append]
    cases t.slash with
    | true => exact hrun .slashed (.inr rfl)
    | false => exact hrun .opened (.inl rfl)
  have htail : ∀ s, (s = .name t.name ∨ s = .spaces) → tagRun s t.tail = some .outside := by
    rintro s hs
    have hstep : ∀ c, isAlpha c = false → tagStep s c = tagEnd c := by
      intro c hc
      rcases hs with rfl | rfl
      · rw [tagStep, hc, t.inline]
        rfl
      · rfl
    have hends := t.ends
    simp only [tagTails, List.mem_cons, List.not_mem_nil, or_false] at hends
    rcases hends with he | he | he
    · rw [he]
      show (tagStep s 0x3E).bind (tagRun · []) = some .outside
      rw [hstep 0x3E rfl]
      rfl
    · rw [he]
      show (tagStep s 0x2F).bind (tagRun · [0x3E]) = some .outside
      rw [hstep 0x2F rfl]
      rfl
    · exact absurd he h
  have hbody : t.body = slashBytes t.slash ++ t.name ++ (t.spaces ++ t.tail) := by
    simp [InlineTag.body]
  show tagRun .opened t.body = some .outside
  rw [hbody, tagRun_append, hfront, Option.bind_some]
  cases hspaces : t.spaces with
  | nil => exact htail _ (.inl rfl)
  | cons b spaces =>
    have hb := t.blanks
    rw [hspaces] at hb
    have hfirst : tagStep (.name t.name) b = some .spaces := by
      have halpha : isAlpha b = false := by
        have hall : ∀ n : Fin 256, isSpace (UInt8.ofFin n) = true →
          isAlpha (UInt8.ofFin n) = false := by
          decide +kernel
        exact hall b.toFin (hb b List.mem_cons_self)
      rw [tagStep, halpha, t.inline, tagEnd, if_pos (hb b List.mem_cons_self)]
      rfl
    rw [List.cons_append, tagRun, hfirst, Option.bind_some, tagRun_append,
      tagRun_spaces spaces fun b' hb' => hb b' (List.mem_cons_of_mem b hb')]
    exact htail _ (.inr rfl)

theorem kTags_inline {name : Bytes} (h : kTags.contains (name.map toLower) = true) :
    isInlineName name = true := by
  have hall : ∀ t ∈ kTags, inlineNames.contains t = true := by decide
  exact hall _ (List.contains_iff_mem.1 h)

theorem head_slash (l : Bytes) : l = slashBytes (l.head? == some 0x2F) ++
    l.drop (if l.head? == some 0x2F then 1 else 0) := by
  cases l with
  | nil => rfl
  | cons c l =>
    rw [List.head?_cons, Option.some_beq_some]
    cases hc : c == 0x2F with
    | true => rw [beq_iff_eq.1 hc]; rfl
    | false => rfl

theorem slashBytes_length (b : Bool) : (slashBytes b).length = if b then 1 else 0 := by
  cases b <;> rfl

/-- The tag that passes through. -/
theorem inlineTag_eq {rest tag : Bytes} (h : inlineTag (0x3C :: rest) = some tag) :
    ∃ (t : InlineTag) (left : Bytes), tag = 0x3C :: t.body ∧ t.tail ≠ ascii "<br>" ∧
      rest = t.body ++ left := by
  unfold inlineTag at h
  simp only [List.drop_succ_cons, List.drop_zero, Nat.add_comm 1] at h
  generalize hslash : (rest.head? == some 0x2F) = slash at h
  have hrest := head_slash rest
  rw [hslash] at hrest
  generalize rest.drop (if slash = true then 1 else 0) = body at h hrest
  have hbody : body.takeWhile isAlpha ++ body.drop (body.takeWhile isAlpha).length = body :=
    List.prefix_iff_eq_append.1 (List.takeWhile_prefix isAlpha)
  have halpha : ∀ b ∈ body.takeWhile isAlpha, isAlpha b = true :=
    fun b hb => List.mem_takeWhile_imp hb
  generalize body.takeWhile isAlpha = name at h hbody halpha
  have hspaces : (body.drop name.length).takeWhile isSpace ++
      (body.drop name.length).drop ((body.drop name.length).takeWhile isSpace).length =
        body.drop name.length :=
    List.prefix_iff_eq_append.1 (List.takeWhile_prefix isSpace)
  have hblank : ∀ b ∈ (body.drop name.length).takeWhile isSpace, isSpace b = true :=
    fun b hb => List.mem_takeWhile_imp hb
  generalize (body.drop name.length).takeWhile isSpace = spaces at h hspaces hblank
  rw [List.drop_drop] at hspaces
  generalize body.drop (name.length + spaces.length) = close at h hspaces
  generalize hslash' : (close.head? == some 0x2F) = slash' at h
  have hends := head_slash close
  rw [hslash'] at hends
  simp only [← slashBytes_length] at h hends
  split at h
  · rename_i hif
    rw [Bool.and_eq_true] at hif
    obtain ⟨hname, hgt⟩ := hif
    cases hleft : close.drop (slashBytes slash').length with
    | nil => rw [hleft] at hgt; cases hgt
    | cons c left =>
      rw [hleft, List.head?_cons, Option.some_beq_some] at hgt
      rw [hleft, beq_iff_eq.1 hgt] at hends
      have hne : name ≠ [] := by
        rintro rfl
        cases hname
      have htail : slashBytes slash' ++ [0x3E] ∈ tagTails ∧
        slashBytes slash' ++ [0x3E] ≠ ascii "<br>" := by
        cases slash' <;> decide
      let t : InlineTag :=
        ⟨slash, name, spaces, _, hne, halpha, kTags_inline hname, hblank, htail.1⟩
      have hsplit : rest = t.body ++ left := by
        rw [hrest, ← hbody, ← hspaces, hends]
        simp [t, InlineTag.body]
      refine ⟨t, left, ?_, htail.2, hsplit⟩
      rw [← Option.some.inj h, hsplit]
      have hlength : (slashBytes slash).length + 1 + name.length + spaces.length +
          (slashBytes slash').length + 1 = (0x3C :: t.body).length := by
        simp only [t, InlineTag.body, List.length_cons, List.length_append, List.length_nil]
        omega
      rw [hlength, ← List.cons_append, List.take_left]
  · cases h

theorem textCommand_eq {rest out : Bytes} {n : Nat} (h : textCommand rest = some (out, n)) :
    ∃ name, (name, out) ∈ kCommands := by
  obtain ⟨command, hcommand, hout⟩ := List.exists_of_findSome?_eq_some h
  dsimp only at hout
  split at hout
  · cases hout
    exact ⟨command.1, hcommand⟩
  · cases hout

theorem whole_cellMarkup {l out : Bytes} {n : Nat} (h : cellMarkup l = some (out, n)) :
    Whole out := by
  cases l with
  | nil => cases h
  | cons c rest =>
    unfold cellMarkup at h
    dsimp only at h
    split at h
    · cases rest with
      | nil => cases h
      | cons next rest =>
        dsimp only at h
        split at h
        · cases h
          decide
        · split at h
          · rename_i hnext
            cases h
            refine whole_of_notMem fun hlt => ?_
            rw [← List.mem_singleton.1 hlt] at hnext
            cases hnext
          · obtain ⟨name, hname⟩ := textCommand_eq h
            have hall : ∀ command ∈ kCommands, Whole command.2 := by decide
            exact hall _ hname
    · split at h
      · rename_i hlt
        obtain ⟨tag, htag, he⟩ := Option.map_eq_some_iff.1 h
        cases he
        rw [beq_iff_eq.1 hlt] at htag
        obtain ⟨t, left, rfl, htail, -⟩ := inlineTag_eq htag
        exact whole_tag t htail
      · cases h

theorem whole_escapeHtmlByte (c : UInt8) : Whole (escapeHtmlByte c) := by
  unfold escapeHtmlByte
  split
  · decide
  · split
    · decide
    · rename_i hlt
      split
      · decide
      · refine whole_of_notMem fun hm => hlt ?_
        rw [← List.mem_singleton.1 hm]
        rfl

theorem whole_escapeFrom : ∀ (l : Bytes) (skip : Nat), Whole (escapeFrom skip l) := by
  intro l
  induction l with
  | nil => intro skip; cases skip <;> rfl
  | cons c rest ih =>
    intro skip
    cases skip with
    | succ skip => exact ih skip
    | zero =>
      rw [escapeFrom]
      split
      · rename_i out n hmarkup
        exact (whole_cellMarkup hmarkup).append (ih _)
      · exact (whole_escapeHtmlByte c).append (ih 0)

theorem whole_parseLatexCell (raw : Bytes) : Whole (parseLatexCell raw).text :=
  (whole_escapeFrom _ 0).trim

/-! ## The pushed texts -/

/-- The layout changes no text. -/
theorem layoutRow_texts {P : Bytes → Prop} {r : Nat} :
    ∀ {entries : List LatexCell} {s s' : Layout} {col : Nat},
    (∀ cell ∈ entries, P cell.text) → (∀ cell ∈ s.cells, P cell.text) →
    layoutRow r entries s col = some s' → ∀ cell ∈ s'.cells, P cell.text := by
  intro entries
  induction entries with
  | nil =>
    intro s s' col _ h hrow
    cases hrow
    exact h
  | cons cell entries ih =>
    intro s s' col hall h hrow
    have hrest := fun c hc => hall c (List.mem_cons_of_mem cell hc)
    rcases layoutRow_cases hrow with ⟨-, -, hrow⟩ | ⟨s1, hs1, -, hrow⟩
    · exact ih hrest h hrow
    · have hshort : ∀ c ∈ s1.cells, P c.text := by
        rcases hs1 with ⟨-, rfl⟩ | ⟨i, -, -, rfl⟩
        · exact h
        · intro c hc
          rcases mem_modify hc with hc | ⟨c', hc', rfl⟩
          · exact h c hc
          · exact h c' hc'
      refine ih hrest (fun c hc => ?_) hrow
      rcases List.mem_append.1 hc with hc | hc
      · exact hshort c hc
      · rw [List.mem_singleton.1 hc]
        exact hall cell List.mem_cons_self

theorem layoutRows_texts {P : Bytes → Prop} :
    ∀ {rows : List (List LatexCell)} {r : Nat} {s s' : Layout},
    (∀ entries ∈ rows, ∀ cell ∈ entries, P cell.text) → (∀ cell ∈ s.cells, P cell.text) →
    layoutRows r rows s = some s' → ∀ cell ∈ s'.cells, P cell.text := by
  intro rows
  induction rows with
  | nil =>
    intro r s s' _ h hrows
    cases hrows
    exact h
  | cons entries rows ih =>
    intro r s s' hall h hrows
    rw [layoutRows] at hrows
    split at hrows
    · cases hrows
    · rename_i s1 hrow
      exact ih (fun e he => hall e (List.mem_cons_of_mem entries he))
        (layoutRow_texts (hall entries List.mem_cons_self) h hrow) hrows

theorem latexGrid_whole {latex : Bytes} {grid : List (List PushedCell)}
    (h : latexGrid latex = some grid) :
    ∀ row ∈ grid, ∀ cell ∈ row, Whole cell.text := by
  obtain ⟨s, hs, -, -, hflat⟩ := latexGrid_inv h
  intro row hrow cell hcell
  have hmem : cell ∈ s.cells := by
    rw [← hflat]
    exact List.mem_flatten.2 ⟨row, hrow, hcell⟩
  refine layoutRows_texts (P := Whole) (fun entries he c hc => ?_) (by simp) hs cell hmem
  obtain ⟨raw, -, rfl⟩ := List.mem_map.1 he
  obtain ⟨text, -, rfl⟩ := List.mem_map.1 hc
  exact whole_parseLatexCell text

/-! ## Markdown keeps a text within the inline tags -/

theorem joinLines_eq : ∀ (lines : List Bytes) (line : Bytes),
    joinLines line lines = [(0x0A : UInt8)].intercalate (line :: lines) := by
  intro lines
  induction lines with
  | nil => intro line; simp [joinLines, List.intercalate]
  | cons next lines ih =>
    intro line
    show joinLines (line ++ 0x0A :: next) lines = _
    rw [← List.singleton_append, ← List.append_assoc, joinLines_append, ih]
    simp [List.intercalate]

theorem content_markdownInlineHtml {text : Bytes} (h : Whole text) :
    Content (markdownInlineHtml text) := by
  have hrendered : Whole (renderLines [] (text.splitOn 0x0A)) := by
    refine whole_renderLines (fun _ line rest he => ?_) fun hne => absurd rfl hne
    rw [joinLines_eq, ← he, List.intercalate_splitOn]
    exact h.inline
  unfold markdownInlineHtml
  split
  · exact h.content
  · dsimp only
    split
    · exact (whole_unescape h).content
    · exact content_breakLines hrendered.trim

/-! ## The element tree -/

/-- The attributes a cell is written with. -/
def cellAttrs (cell : PushedCell) : List (Bytes × Bytes) :=
  (if cell.header then [(ascii "scope", ascii "col")] else []) ++
    [(ascii "rowspan", decimal cell.rowSpan), (ascii "colspan", decimal cell.colSpan)]

def cellNode (body : PushedCell → List MarkupNode) (cell : PushedCell) : MarkupNode :=
  .element (cellTag cell) (cellAttrs cell) (body cell)

def rowNode (body : PushedCell → List MarkupNode) (cells : List PushedCell) : MarkupNode :=
  .element (ascii "tr") [] (cells.map (cellNode body))

/-- A table with a row for each row of the grid, and in it its cells. -/
def gridNode (body : PushedCell → List MarkupNode) (grid : List (List PushedCell)) : MarkupNode :=
  .element (ascii "table") [] (grid.map (rowNode body))

/-- What a cell's rendered text reads as, three elements deep. -/
def CellBody (html : Bytes) (body : List MarkupNode) : Prop :=
  ∀ (a : Around) (close rest : Bytes), a.below.length + 1 = 3 →
    Reads .html close ⟨a.tag, true, false, []⟩ →
    (a.tag == ascii "script" || a.tag == ascii "style") = false →
    parseRest .html (a.place ⟨[], []⟩) [] (html ++ (close ++ rest)) =
      parseRest .html (Builder.addChild ⟨a.below, a.root⟩ (.element a.tag a.attrs body)) [] rest

theorem cellTag_cases (cell : PushedCell) :
    cellTag cell = ascii "td" ∨ cellTag cell = ascii "th" := by
  unfold cellTag
  split
  · exact .inr rfl
  · exact .inl rfl

theorem reads_closeCell (cell : PushedCell) :
    Reads .html (ascii "</" ++ cellTag cell ++ ascii ">") ⟨cellTag cell, true, false, []⟩ := by
  rcases cellTag_cases cell with h | h
  · rw [h]
    exact reads_close_td
  · rw [h]
    exact ⟨by decide, by decide, fun _ => rfl⟩

/-- The spans of a cell are at most 1001 when it is pushed. -/
def SmallSpans (cell : PushedCell) : Prop :=
  cell.rowSpan ≤ kMaxLatexColumns + 1 ∧ cell.colSpan ≤ kMaxLatexColumns + 1

theorem reads_openCell {cell : PushedCell} (h : SmallSpans cell) :
    Reads .html (openCell cell) ⟨cellTag cell, false, false, cellAttrs cell⟩ := by
  have hform : openCell cell = openTagBytes (cellTag cell) (cellAttrs cell) := by
    unfold openCell openTagBytes cellAttrs
    cases cell.header <;> simp [quotedAttr, ascii]
  have hname : PlainName (cellTag cell) := by
    rcases cellTag_cases cell with h | h
    · rw [h]
      exact plainName_td
    · rw [h]
      exact ⟨by decide, List.all_eq_true.1 (by decide), by decide⟩
  have hscope : PlainAttr (ascii "scope", ascii "col") :=
    ⟨⟨by decide, List.all_eq_true.1 (by decide), by decide⟩, by decide, by decide⟩
  have hattrs : ∀ attr ∈ cellAttrs cell, PlainAttr attr := by
    intro attr hattr
    rcases List.mem_append.1 hattr with hattr | hattr
    · split at hattr
      · rw [List.mem_singleton.1 hattr]
        exact hscope
      · cases hattr
    · rcases List.mem_cons.1 hattr with rfl | hattr
      · exact plainAttr_rowspan _
      · rw [List.mem_singleton.1 hattr]
        exact plainAttr_colspan _
  have h1 := length_decimal_le cell.rowSpan
  have h2 := length_decimal_le cell.colSpan
  have hlen : (openCell cell).length ≤ (decimal cell.rowSpan).length +
    (decimal cell.colSpan).length + 50 := by
    unfold openCell cellTag
    cases cell.header <;> simp [ascii] <;> omega
  unfold SmallSpans kMaxLatexColumns at h
  rw [hform] at hlen ⊢
  exact reads_openTagBytes hname hattrs (by rw [kMaxTagBytes]; omega)

/-- A rendered cell inside an open row. -/
theorem parse_cell {cell : PushedCell} (hspans : SmallSpans cell) {body : List MarkupNode}
    (hbody : CellBody (markdownInlineHtml cell.text) body) (cells done : List MarkupNode)
    (rest : Bytes) :
    parseRest .html ⟨[⟨ascii "tr", [], cells⟩, ⟨ascii "table", [], done⟩], []⟩ []
      (renderCell cell ++ rest) =
      parseRest .html ⟨[⟨ascii "tr", [], cells ++ [.element (cellTag cell) (cellAttrs cell) body]⟩,
        ⟨ascii "table", [], done⟩], []⟩ [] rest := by
  have hsplit : renderCell cell ++ rest = openCell cell ++ (markdownInlineHtml cell.text ++
      (ascii "</" ++ cellTag cell ++ ascii ">" ++ rest)) := by
    simp [renderCell]
  have hraw : (cellTag cell == ascii "script" || cellTag cell == ascii "style") = false := by
    rcases cellTag_cases cell with h | h <;> rw [h] <;> rfl
  have houter :
    ∀ t ∈ cellTag cell :: [⟨ascii "tr", [], cells⟩, ⟨ascii "table", [], done⟩].map Frame.tag,
      t ∉ inlineNames := by
    show ∀ t ∈ [cellTag cell, ascii "tr", ascii "table"], t ∉ inlineNames
    rcases cellTag_cases cell with h | h <;> rw [h] <;> decide
  let a : Around :=
    ⟨cellTag cell, cellAttrs cell, [⟨ascii "tr", [], cells⟩, ⟨ascii "table", [], done⟩], [], houter⟩
  have hopen :
    Builder.apply .html (Builder.text ⟨[⟨ascii "tr", [], cells⟩, ⟨ascii "table", [], done⟩], []⟩ [])
      ⟨cellTag cell, false, false, cellAttrs cell⟩ = a.place ⟨[], []⟩ := by
    rcases cellTag_cases cell with h | h <;> simp only [a, h] <;> rfl
  rw [hsplit, parseRest_reads (reads_openCell hspans) hraw, hopen]
  exact hbody a _ rest rfl (reads_closeCell cell) hraw

section Bodies
variable {body : PushedCell → List MarkupNode}

/-- A cell that is written and read as one element. -/
def Readable (body : PushedCell → List MarkupNode) (cell : PushedCell) : Prop :=
  SmallSpans cell ∧ CellBody (markdownInlineHtml cell.text) (body cell)

theorem parse_cells : ∀ {row : List PushedCell}, (∀ cell ∈ row, Readable body cell) →
    ∀ (cells done : List MarkupNode) (rest : Bytes),
    parseRest .html ⟨[⟨ascii "tr", [], cells⟩, ⟨ascii "table", [], done⟩], []⟩ []
      (row.flatMap renderCell ++ rest) =
      parseRest .html ⟨[⟨ascii "tr", [], cells ++ row.map (cellNode body)⟩,
        ⟨ascii "table", [], done⟩], []⟩ [] rest := by
  intro row
  induction row with
  | nil => intro _ cells done rest; simp
  | cons cell row ih =>
    intro h cells done rest
    obtain ⟨hspans, hbody⟩ := h cell List.mem_cons_self
    rw [List.flatMap_cons, List.append_assoc, parse_cell hspans hbody,
      ih fun c hc => h c (List.mem_cons_of_mem cell hc)]
    simp [cellNode]

theorem parse_row {row : List PushedCell} (h : ∀ cell ∈ row, Readable body cell)
    (done : List MarkupNode)
    (rest : Bytes) :
    parseRest .html ⟨[⟨ascii "table", [], done⟩], []⟩ [] (renderRow row ++ rest) =
      parseRest .html ⟨[⟨ascii "table", [], done ++ [rowNode body row]⟩], []⟩ [] rest := by
  have hsplit : renderRow row ++ rest =
    ascii "<tr>" ++ (row.flatMap renderCell ++ (ascii "</tr>" ++ rest)) := by
    simp [renderRow]
  have hopen : Builder.apply .html (Builder.text ⟨[⟨ascii "table", [], done⟩], []⟩ [])
      ⟨ascii "tr", false, false, []⟩ = ⟨[⟨ascii "tr", [], []⟩, ⟨ascii "table", [], done⟩], []⟩ :=
        rfl
  rw [hsplit, parseRest_reads reads_tr (by decide), hopen, parse_cells h,
    parseRest_reads reads_close_tr rfl]
  rfl

theorem parse_rows :
    ∀ {grid : List (List PushedCell)}, (∀ row ∈ grid, ∀ cell ∈ row, Readable body cell) →
    ∀ (done : List MarkupNode) (rest : Bytes),
    parseRest .html ⟨[⟨ascii "table", [], done⟩], []⟩ [] (grid.flatMap renderRow ++ rest) =
      parseRest .html ⟨[⟨ascii "table", [], done ++ grid.map (rowNode body)⟩], []⟩ [] rest := by
  intro grid
  induction grid with
  | nil => intro _ done rest; simp
  | cons row grid ih =>
    intro h done rest
    rw [List.flatMap_cons, List.append_assoc, parse_row (h row List.mem_cons_self),
      ih fun r hr => h r (List.mem_cons_of_mem row hr)]
    simp

/-- A rendered grid reads as its table. -/
theorem parseMarkup_renderTable {grid : List (List PushedCell)}
    (h : ∀ row ∈ grid, ∀ cell ∈ row, Readable body cell) :
    parseMarkup .html (renderTable grid) = .element (ascii "root") [] [gridNode body grid] := by
  have hsplit : renderTable grid =
    ascii "<table>" ++ (grid.flatMap renderRow ++ (ascii "</table>" ++ [])) := by
    simp [renderTable]
  have hopen : Builder.apply .html (Builder.text ⟨[], []⟩ []) ⟨ascii "table", false, false, []⟩ =
      ⟨[⟨ascii "table", [], []⟩], []⟩ := rfl
  have hparse : parseRest .html ⟨[], []⟩ [] (renderTable grid) = ⟨[], [gridNode body grid]⟩ := by
    rw [hsplit, parseRest_reads reads_table rfl, hopen, parse_rows h,
      parseRest_reads reads_close_table rfl, parseRest_nil]
    rfl
  show (parseRest .html ⟨[], []⟩ [] (renderTable grid)).take = _
  rw [hparse]
  rfl

end Bodies

/-! ## The structure of a converted table -/

theorem LayoutInv.smallSpans {s : Layout} {r col : Nat} (h : LayoutInv s r col) :
    ∀ cell ∈ s.cells, SmallSpans cell := by
  intro cell hcell
  obtain ⟨hbound, hend⟩ := h.spans cell hcell
  exact ⟨hbound.rowSpan_le, by omega⟩

/-- Every cell of a layout is read as one element with inline content. -/
theorem exists_body {latex : Bytes} {grid : List (List PushedCell)}
    (h : latexGrid latex = some grid) :
    ∃ body : PushedCell → List MarkupNode, ∀ row ∈ grid, ∀ cell ∈ row, Readable body cell ∧
      ∀ node ∈ body cell, node.OnlyInline := by
  obtain ⟨s, -, hinv, -, hflat⟩ := latexGrid_inv h
  have hbody : ∀ cell : PushedCell, ∃ body : List MarkupNode, Whole cell.text →
      CellBody (markdownInlineHtml cell.text) body ∧ ∀ node ∈ body, node.OnlyInline := by
    intro cell
    by_cases hwhole : Whole cell.text
    · obtain ⟨body, hinline, hbody⟩ := parse_element 3 (content_markdownInlineHtml hwhole)
      exact ⟨body, fun _ => ⟨hbody, hinline⟩⟩
    · exact ⟨[], fun hw => absurd hw hwhole⟩
  choose body hbody using hbody
  refine ⟨body, fun row hrow cell hcell => ?_⟩
  have hmem : cell ∈ s.cells := by
    rw [← hflat]
    exact List.mem_flatten.2 ⟨row, hrow, hcell⟩
  obtain ⟨hcellBody, hinline⟩ := hbody cell (latexGrid_whole h row hrow cell hcell)
  exact ⟨⟨hinv.smallSpans cell hmem, hcellBody⟩, hinline⟩

/-- **No cell text breaks the table.** The HTML of a converted table parses to
one table with a row for each row of entries; row `r` holds an element for each
cell pushed for it, in order, with the spans it was pushed with, and inside a
cell there is text and inline formatting only. -/
theorem latex_structure {latex html : Bytes} (h : latexTabularToHtml latex = some html) :
    ∃ (s : Layout) (grid : List (List PushedCell)) (body : PushedCell → List MarkupNode),
      layoutRows 0 (tabularRows latex) {} = some s ∧
      grid = (List.range (tabularRows latex).length).map (fun r => s.cells.filter (·.row == r)) ∧
      grid.flatten = s.cells ∧
      (∀ cell ∈ s.cells, ∀ node ∈ body cell, node.OnlyInline) ∧
      html = renderTable grid ∧
      parseMarkup .html html = .element (ascii "root") [] [gridNode body grid] := by
  obtain ⟨grid, hgrid, rfl⟩ := Option.map_eq_some_iff.1 h
  obtain ⟨s, hs, -, hrows, hflat⟩ := latexGrid_inv hgrid
  obtain ⟨body, hbody⟩ := exists_body hgrid
  refine ⟨s, grid, body, hs, hrows, hflat, fun cell hcell => ?_, rfl,
    parseMarkup_renderTable fun row hrow cell hcell => (hbody row hrow cell hcell).1⟩
  rw [← hflat] at hcell
  obtain ⟨row, hrow, hcell⟩ := List.mem_flatten.1 hcell
  exact (hbody row hrow cell hcell).2

/-- A close tag and an open inline tag in the cells. -/
def sampleLatex : Bytes := ascii "</td> & <b>\\\\c"

def sampleLatexHtml : Bytes :=
  ascii "<table><tr><td rowspan=\"1\" colspan=\"1\">&lt;/td&gt;</td><td rowspan=\"1\" colspan=\"1\"><b></td></tr>" ++
    ascii "<tr><td rowspan=\"1\" colspan=\"1\">c</td></tr></table>"

theorem latex_structure_sample :
    latexTabularToHtml sampleLatex = some sampleLatexHtml ∧
    ∃ (s : Layout) (grid : List (List PushedCell)) (body : PushedCell → List MarkupNode),
      layoutRows 0 (tabularRows sampleLatex) {} = some s ∧
      grid = (List.range (tabularRows sampleLatex).length).map
        (fun r => s.cells.filter (·.row == r)) ∧
      grid.flatten = s.cells ∧
      (∀ cell ∈ s.cells, ∀ node ∈ body cell, node.OnlyInline) ∧
      sampleLatexHtml = renderTable grid ∧
      parseMarkup .html sampleLatexHtml = .element (ascii "root") [] [gridNode body grid] := by
  have h : latexTabularToHtml sampleLatex = some sampleLatexHtml := by decide +kernel
  exact ⟨h, latex_structure h⟩

end VlmConvert.L2.Latex
